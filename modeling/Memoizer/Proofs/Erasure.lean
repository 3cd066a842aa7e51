import Mathlib
import Memoizer.Proofs.MemoDecl

namespace Memoizer

namespace Expr

/-- What an initializer has to be to be wrapped: a call of an expensive method by name, with nothing in it that the
scan cannot read, and with something to depend on. -/
def Qualifies (c : Config) (e : Expr) : Prop :=
  c.passes.wrapping = true ∧
    (∃ object method args, e = .call (.member object (.name method)) args ∧ c.isExpensiveMethod method = true) ∧
    (e.scan c {}).unreadable = false ∧ e.freeNames c ≠ []

theorem isExpensiveCall_iff {c : Config} {e : Expr} : e.isExpensiveCall c = true ↔
    ∃ object method args, e = .call (.member object (.name method)) args ∧ c.isExpensiveMethod method = true := by
  constructor
  · intro h
    rw [isExpensiveCall.eq_def] at h
    split at h
    next object method args => exact ⟨object, method, args, rfl, h⟩
    next => cases h
  · rintro ⟨object, method, args, rfl, h⟩
    exact h

instance (c : Config) (e : Expr) : Decidable (e.Qualifies c) :=
  decidable_of_iff (c.passes.wrapping = true ∧ e.isExpensiveCall c = true ∧ (e.scan c {}).unreadable = false ∧
    e.freeNames c ≠ []) (by rw [Qualifies, isExpensiveCall_iff])

theorem wrapping_of_qualifies {c : Config} {e : Expr} (h : e.Qualifies c) : e.wrapping c = .wrap (e.freeNames c) := by
  obtain ⟨_, hcall, hread, hfree⟩ := h
  have hempty : (e.scan c {}).found.isEmpty = false := by simpa [freeNames] using hfree
  simp [wrapping, isExpensiveCall_iff.mpr hcall, hread, hempty, freeNames]

theorem qualifies_of_wrapping {c : Config} {e : Expr} {deps : List String} (hon : c.passes.wrapping = true)
    (h : e.wrapping c = .wrap deps) : e.Qualifies c := by
  rw [wrapping] at h
  split at h
  next hcall =>
    dsimp only at h
    split at h
    · cases h
    next hread =>
      split at h
      · cases h
      next hfree =>
        exact ⟨hon, isExpensiveCall_iff.mp hcall, by simpa using hread, by simpa [freeNames] using hfree⟩
  next => cases h

def RewrittenTo (c : Config) (e e' : Expr) : Prop :=
  e.Qualifies c ∧ e' = .call (.ident c.memoPrimitive)
      [.arrow [] (.expr e) false, .array ((e.freeNames c).map fun name => some (.ident name))] ∨
    ¬ e.Qualifies c ∧ e' = e

theorem not_qualifies {c : Config} {e : Expr} (hoff : c.passes.wrapping = false) : ¬ e.Qualifies c := by
  rintro ⟨hon, _⟩
  rw [hoff] at hon
  cases hon

end Expr

inductive Declarator.RewrittenTo (c : Config) : Declarator → Declarator → Prop
  | bare (target : Pattern) : RewrittenTo c (.mk target none) (.mk target none)
  | init (target : Pattern) {e e' : Expr} (h : e.RewrittenTo c e') :
      RewrittenTo c (.mk target (some e)) (.mk target (some e'))

inductive Stmt.RewrittenTo (c : Config) : Stmt → Stmt → Prop
  | decl (kind : DeclKind) (place : Option Place) {ds ds' : List Declarator}
      (h : List.Forall₂ (Declarator.RewrittenTo c) ds ds') : RewrittenTo c (.decl kind ds place) (.decl kind ds' place)
  | ret (value : Option Expr) (place : Option Place) : RewrittenTo c (.ret value place) (.ret value place)
  | expr (value : Expr) (place : Option Place) : RewrittenTo c (.expr value place) (.expr value place)
  | verbatim (kind text : String) (place : Option Place) :
      RewrittenTo c (.verbatim kind text place) (.verbatim kind text place)

def Stmt.inits : Stmt → List Expr
  | .decl _ declarators _ => declarators.flatMap (·.init.toList)
  | _ => []

theorem forall₂_wrapEach {α : Type} {R : α → α → Prop} {f : α → Wrapped α} (h : ∀ a, R a (f a).value) (as : List α) :
    List.Forall₂ R as (wrapEach f as).value := by
  induction as with
  | nil => exact .nil
  | cons a as ih => exact .cons (h a) ih

theorem count_wrapEach {α β : Type} {f : α → Wrapped α} {parts : α → List β} {p : β → Bool}
    (h : ∀ a, (f a).count = (parts a).countP p) (as : List α) : (wrapEach f as).count = (as.flatMap parts).countP p := by
  induction as with
  | nil => rfl
  | cons a as ih => rw [wrapEach, Wrapped.cons, List.flatMap_cons, List.countP_append, h, ih]

section Wrapping

variable {c : Config} (hon : c.passes.wrapping = true)

include hon

theorem Declarator.wrap_spec (d : Declarator) : d.RewrittenTo c (d.wrap c).value ∧
    (d.wrap c).count = d.init.toList.countP fun e => decide (e.Qualifies c) := by
  obtain ⟨target, _ | e⟩ := d
  · exact ⟨.bare target, rfl⟩
  · rw [Declarator.wrap, Declarator.init, Option.toList_some, List.countP_singleton]
    by_cases hq : e.Qualifies c
    · rw [Expr.wrapping_of_qualifies hq, if_pos (by simpa using hq)]
      exact ⟨.init target (.inl ⟨hq, rfl⟩), rfl⟩
    · rw [if_neg (by simpa using hq)]
      cases hw : e.wrapping c with
      | keep | unreadable => exact ⟨.init target (.inr ⟨hq, rfl⟩), rfl⟩
      | wrap deps => exact absurd (Expr.qualifies_of_wrapping hon hw) hq

theorem Stmt.wrap_spec (s : Stmt) : s.RewrittenTo c (s.wrap c).value ∧
    (s.wrap c).count = s.inits.countP fun e => decide (e.Qualifies c) := by
  cases s with
  | decl kind declarators place =>
      exact ⟨.decl kind place (forall₂_wrapEach (fun d => (d.wrap_spec hon).1) declarators),
        count_wrapEach (fun d => (d.wrap_spec hon).2) declarators⟩
  | ret value place => exact ⟨.ret value place, rfl⟩
  | expr value place => exact ⟨.expr value place, rfl⟩
  | verbatim kind text place => exact ⟨.verbatim kind text place, rfl⟩

end Wrapping

section NoWrapping

variable {c : Config} (hoff : c.passes.wrapping = false)

include hoff

theorem Declarator.rewrittenTo_self (d : Declarator) : d.RewrittenTo c d := by
  obtain ⟨target, _ | e⟩ := d
  · exact .bare target
  · exact .init target (.inr ⟨Expr.not_qualifies hoff, rfl⟩)

theorem Stmt.rewrittenTo_self (s : Stmt) : s.RewrittenTo c s := by
  cases s with
  | decl kind declarators place =>
      exact .decl kind place (List.forall₂_same.mpr fun d _ => d.rewrittenTo_self hoff)
  | ret value place => exact .ret value place
  | expr value place => exact .expr value place
  | verbatim kind text place => exact .verbatim kind text place

theorem countP_qualifies (es : List Expr) : (es.countP fun e => decide (e.Qualifies c)) = 0 := by
  rw [List.countP_eq_zero]
  intro e _
  simpa using Expr.not_qualifies hoff

end NoWrapping

theorem Function.wrapStmts_spec (f : Function) (c : Config) :
    List.Forall₂ (Stmt.RewrittenTo c) f.body (f.wrapStmts c).value ∧
      (f.wrapStmts c).count = (f.body.flatMap Stmt.inits).countP fun e => decide (e.Qualifies c) := by
  rw [Function.wrapStmts]
  cases hpass : c.passes.wrapping with
  | true =>
      exact ⟨forall₂_wrapEach (fun s => (s.wrap_spec hpass).1) f.body,
        count_wrapEach (fun s => (s.wrap_spec hpass).2) f.body⟩
  | false =>
      exact ⟨List.forall₂_same.mpr fun s _ => s.rewrittenTo_self hpass, (countP_qualifies hpass _).symm⟩

/-- The result is made of memo declarations and of the statements, each in its place and the same but for wrapped
initializers. -/
theorem Function.compile_keeps_statements (f : Function) (c : Config) (log log' : Log) (r : Compiled)
    (h : f.compile c log = .ok r log') :
    ∃ decls stmts, r.stmts = decls ++ stmts ∧ decls.length = r.memoBlocks ∧ stmts.length = f.body.length ∧
      (∀ k < r.memoBlocks, ∃ value, ∃ deps : List String, ∃ place,
        decls[k]? = some (.decl .const [.mk (.ident ("memoized" ++ toString k)) (some (.call (.ident c.memoPrimitive)
          [.arrow [] (.expr value) false, .array (deps.map fun name => some (.ident name))]))] place)) ∧
      List.Forall₂ (Stmt.RewrittenTo c) f.body stmts ∧
      r.wrapped = (f.body.flatMap Stmt.inits).countP fun e => decide (e.Qualifies c) := by
  obtain ⟨_, items, _, _, rfl⟩ := compile_stages h
  obtain ⟨hstmts, hcount⟩ := f.wrapStmts_spec c
  refine ⟨_, _, rfl, rfl, hstmts.length_eq.symm, fun k hk => ?_, hstmts, hcount⟩
  obtain ⟨block, _, target, hstmt⟩ := FunctionAnalysis.memoDecls_getElem? (List.getElem?_eq_getElem hk)
  exact ⟨_, _, _, (List.getElem?_eq_getElem hk).trans (congrArg some hstmt)⟩

/-- `function F(a) { const x = a.map(g), y = a.n; log({ v: a }); }`. -/
def mappedAndLogged : Function where
  name := "F"
  params := [.ident "a"]
  body := [
    .decl .const [.mk (.ident "x") (some (.call (.member (.ident "a") (.name "map")) [.ident "g"])),
      .mk (.ident "y") (some (.member (.ident "a") (.name "n")))] none,
    .expr (.call (.ident "log") [.object [.property (.ident "v") (.ident "a") false]]) none]
  async := false
  generator := false
  exported := .none
  place := none

theorem compile_mappedAndLogged : ∃ r log' decls stmts, mappedAndLogged.compile {} {} = .ok r log' ∧
    r.stmts = decls ++ stmts ∧ decls.length = 1 ∧ stmts.length = 2 ∧
    List.Forall₂ (Stmt.RewrittenTo {}) mappedAndLogged.body stmts ∧
    r.wrapped = (mappedAndLogged.body.flatMap Stmt.inits).countP fun e => decide (e.Qualifies {}) := by
  have hcompile : mappedAndLogged.compile {} {} = .ok
      ⟨[.decl .const [.mk (.ident "memoized0")
          (some (memoCall {} (.object [.property (.ident "v") (.ident "a") false]) ["a"]))] none,
        .decl .const [.mk (.ident "x")
          (some (memoCall {} (.call (.member (.ident "a") (.name "map")) [.ident "g"]) ["a", "g"])),
          .mk (.ident "y") (some (.member (.ident "a") (.name "n")))] none,
        .expr (.call (.ident "log") [.object [.property (.ident "v") (.ident "a") false]]) none], 1, 1⟩
      ⟨[⟨.info, "lowered `F`: 9 instructions"⟩, ⟨.info, "`F`: memoized0 wraps v7 [a]"⟩,
        ⟨.info, "wrapped `x` in useMemo [a, g]"⟩, ⟨.success, "`F`: 1 memo block(s), 1 direct rewrite(s)"⟩]⟩ := by
    cbv
  obtain ⟨decls, stmts, hsplit, hdecls, hstmts, _, hrewritten, hcount⟩ :=
    Function.compile_keeps_statements _ _ _ _ _ hcompile
  exact ⟨_, _, decls, stmts, hcompile, hsplit, hdecls, hstmts, hrewritten, hcount⟩

end Memoizer
