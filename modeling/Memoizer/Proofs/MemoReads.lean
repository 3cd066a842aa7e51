import Mathlib
import Memoizer.Proofs.MemoSource
import Memoizer.Proofs.Tiling

namespace Memoizer

namespace Body

variable {b : Body} (hb : b.Backward) (c : Config)

include hb

theorem mem_dependencies_iff_reads {id d : InstId} : d ∈ (factsAt (b.analyze c) id).dependencies ↔
    b.Reads id d ∧ (factsAt (b.analyze c) d).mayChange = true := by
  constructor
  · intro h
    obtain ⟨op, ho⟩ := exists_op? (lt_size_of_mem_dependencies c h)
    exact ⟨⟨op, ho, ((mem_dependencies_iff c ho d).mp h).1⟩, mayChange_of_mem_dependencies hb c h⟩
  · rintro ⟨⟨op, ho, hd⟩, hchange⟩
    obtain ⟨op', ho'⟩ := exists_op? (operand_lt_size hb ho hd)
    rw [mayChange_analyze c ho'] at hchange
    exact (mem_dependencies_iff c ho d).mpr ⟨hd, hchange⟩

theorem mem_blockDependencies_blockOf_iff {span : Span} (hspan : span ∈ mergedSpans (b.analyze c)) {name : String} :
    name ∈ b.blockDependencies (b.blockOf (b.analyze c) span) ↔
      ∃ id ∈ span.ids, ∃ d < span.start, b.Reads id d ∧ (factsAt (b.analyze c) d).mayChange = true ∧
        name ∈ b.dependencyNames d := by
  have hdeps := (block_exact hb c hspan).mem_deps_iff
  simp only [Body.span_blockOf, mem_dependencies_iff_reads hb c] at hdeps
  simp only [mem_blockDependencies_iff, hdeps, mem_dependencyNames_iff]
  constructor
  · rintro ⟨d, ⟨hlt, id, hid, hread, hchange⟩, hname⟩
    exact ⟨id, hid, d, hlt, hread, hchange, hname⟩
  · rintro ⟨id, hid, d, hlt, hread, hchange, hname⟩
    exact ⟨d, ⟨hlt, id, hid, hread, hchange⟩, hname⟩

theorem dependencyNames_subset {span : Span} (hspan : span ∈ mergedSpans (b.analyze c)) {d : InstId}
    (hread : b.Reads span.start d) (hchange : (factsAt (b.analyze c) d).mayChange = true) :
    b.dependencyNames d ⊆ b.blockDependencies (b.blockOf (b.analyze c) span) := by
  intro name hname
  have hstart : span.start ∈ span.ids :=
    Span.mem_ids_iff.mpr (Span.contains_iff.mpr ⟨Nat.le_refl _, Nat.le_of_lt (mergedSpans_bounds hb c hspan).1⟩)
  obtain ⟨op, ho, hd⟩ := hread
  exact (mem_blockDependencies_blockOf_iff hb c hspan).mpr
    ⟨span.start, hstart, d, hb span.start op ho d hd, ⟨op, ho, hd⟩, hchange, hname⟩

end Body

theorem Body.spelling_mem_dependencyNames {b : Body} {n d : InstId} {name : String} (h : b.latest n name = some d) :
    b.spelling (b.latest n) name ∈ b.dependencyNames d := by
  obtain ⟨op, ho, hname⟩ := op?_of_latest h
  have hnames : b.dependencyNames d ≠ [] := List.ne_nil_of_mem (mem_dependencyNames_iff.mpr ⟨op, ho, hname⟩)
  obtain ⟨first, rest, hcons⟩ := List.exists_cons_of_ne_nil hnames
  rw [spelling, h]
  simp only [hcons, List.headD_cons, List.mem_cons_self]

/-- A memo declaration lists the names of the changing bindings that its block reads directly. So it lists each changing
name that stands in the expression itself, as its callee, receiver or argument or as the value of a property. -/
theorem Function.memo_lists_reads (f : Function) (c : Config) (log log' : Log) (r : Compiled)
    (h : f.compile c log = .ok r log') :
    ∃ body log₁, f.lower log = .ok body log₁ ∧ ∀ k < r.memoBlocks, ∃ span value, ∃ names : List String, ∃ place,
      (mergedSpans (body.analyze c))[k]? = some span ∧
      r.stmts[k]? = some (.decl .const [.mk (.ident ("memoized" ++ toString k)) (some (.call (.ident c.memoPrimitive)
        [.arrow [] (.expr value) false, .array (names.map fun name => some (.ident name))]))] place) ∧
      (∀ name, name ∈ names ↔ ∃ id ∈ span.ids, ∃ d < span.start, body.Reads id d ∧
        (factsAt (body.analyze c) d).mayChange = true ∧ name ∈ body.dependencyNames d) ∧
      ∃ source ∈ f.body.flatMap Stmt.exprs, ∃ e, source.Contains e ∧
        e.EqUpTo MemberProp.ComesBackAs (body.spelling (body.latest span.start)) value ∧
        ∀ name d, .ident name ∈ e.operands → body.latest span.start name = some d →
          (factsAt (body.analyze c) d).mayChange = true →
          name ∈ names ∧ body.spelling (body.latest span.start) name ∈ names := by
  obtain ⟨log₁, _, hlower, _⟩ := compile_stages h
  have hb := f.emitted_backward log
  refine ⟨_, log₁, hlower, fun k hk => ?_⟩
  obtain ⟨span, hspan, hstmt⟩ := getElem?_stmts_of_lt h hk
  have hmem := List.mem_of_getElem? hspan
  obtain ⟨source, hsource, e, hpart, hcomputes⟩ := (emitted_accounts hlower).computes_start hb c hmem
  refine ⟨span, _, _, _, hspan, hstmt, fun name => Body.mem_blockDependencies_blockOf_iff hb c hmem, source, hsource, e,
    hpart, hcomputes.eqUpTo, fun name d hname hlatest hchange => ?_⟩
  have hsubset := Body.dependencyNames_subset hb c hmem (hcomputes.reads name d hname hlatest) hchange
  exact ⟨hsubset (Body.mem_dependencyNames_iff.mpr (Body.op?_of_latest hlatest)),
    hsubset (Body.spelling_mem_dependencyNames hlatest)⟩

theorem memo_lists_pattern : ∃ body log₁, sortedState.lower {} = .ok body log₁ ∧
    ∃ span, (mergedSpans (body.analyze {}))[0]? = some span ∧ ∀ name ∈ ["n", "rows"], ∃ id ∈ span.ids, ∃ d < span.start,
      body.Reads id d ∧ (factsAt (body.analyze {}) d).mayChange = true ∧ name ∈ body.dependencyNames d := by
  obtain ⟨body, log₁, hlower, hmemos⟩ := Function.memo_lists_reads sortedState {} {} _ _ compile_sortedState
  obtain ⟨span, value, names, place, hspan, hstmt, hnames, _⟩ := hmemos 0 Nat.one_pos
  obtain ⟨_, rfl⟩ := firstMemo_inj (Option.some.inj hstmt)
  exact ⟨body, log₁, hlower, span, hspan, fun name => (hnames name).mp⟩

/-- The first memo declaration of the function holds the value and lists the names, and it misses a name that is free in
the value and whose latest binding in front of the memoized instruction may change. -/
def Function.Misses (f : Function) (value : Expr) (names : List String) (name : String) : Prop :=
  ∃ body log₁ r log' span d, f.lower {} = .ok body log₁ ∧ f.compile {} {} = .ok r log' ∧
    (mergedSpans (body.analyze {}))[0]? = some span ∧
    r.stmts[0]? = some (firstMemo value names) ∧
    name ∈ value.freeNames {} ∧ body.latest span.start name = some d ∧
    (factsAt (body.analyze {}) d).mayChange = true ∧ name ∉ names

theorem Function.misses_of_compile {f : Function} {value : Expr} {names : List String} {name : String} {rest : List Stmt}
    {n m : Nat} {log' : Log} (span : Span) (d : InstId)
    (hcompile : f.compile {} {} = .ok ⟨firstMemo value names :: rest, n, m⟩ log')
    (hspan : (mergedSpans ((f.emitted {}).analyze {}))[0]? = some span) (hfree : name ∈ value.freeNames {})
    (hlatest : (f.emitted {}).latest span.start name = some d)
    (hchange : (factsAt ((f.emitted {}).analyze {}) d).mayChange = true) (hname : name ∉ names) :
    f.Misses value names name := by
  obtain ⟨log₁, _, hlower, _⟩ := compile_stages hcompile
  exact ⟨_, log₁, _, log', span, d, hlower, hcompile, hspan, rfl, hfree, hlatest, hchange, hname⟩

def isAbove : Expr := .arrow [.ident "x"] (.expr (.binary ">" (.ident "x") (.ident "b"))) false

def rowsOf : Expr := .member (.ident "a") (.name "rows")

/-- `function F(a) { var [n, rows] = g(); var n = a; return rows.filter(a).sort(); }`. -/
def sortedRebound : Function :=
  filterThenSort ["a"] [
    .decl .var [.mk (.array [some (.ident "n"), some (.ident "rows")]) (some (.call (.ident "g") []))] none,
    .decl .var [.mk (.ident "n") (some (.ident "a"))] none] (.ident "rows") (.ident "a")

/-- A name is missed inside a function, behind a property, and where it stands for another name of its pattern. -/
theorem memo_misses_reads :
    (filterThenSort ["a", "b"] [] (.ident "a") isAbove).Misses (filtered (.ident "a") isAbove) ["a"] "b" ∧
    (filterThenSort ["a"] [] rowsOf (.ident "f")).Misses (filtered rowsOf (.ident "f")) [] "a" ∧
    sortedRebound.Misses (filtered (.ident "n") (.ident "a")) ["a"] "n" := by
  refine ⟨?callback, ?property, ?pattern⟩
  case callback =>
    -- The function is one constant, which reads nothing.
    let f := filterThenSort ["a", "b"] [] (.ident "a") isAbove
    have hcompile : f.compile {} {} = .ok
        ⟨firstMemo (filtered (.ident "a") isAbove) ["a"] :: f.body, 1, 0⟩
        ⟨[⟨.info, "lowered `F`: 6 instructions"⟩, ⟨.info, "`F`: memoized0 wraps v3 [a]"⟩,
          ⟨.success, "`F`: 1 memo block(s), 0 direct rewrite(s)"⟩]⟩ := by cbv
    exact Function.misses_of_compile ⟨3, 4⟩ 1 hcompile (by cbv) (by decide +kernel) (by cbv) (by cbv) (by decide)
  case property =>
    -- What is read is the value of `a.rows`, and it has no name.
    let f := filterThenSort ["a"] [] rowsOf (.ident "f")
    have hcompile : f.compile {} {} = .ok
        ⟨firstMemo (filtered rowsOf (.ident "f")) [] :: f.body, 1, 0⟩
        ⟨[⟨.info, "lowered `F`: 6 instructions"⟩, ⟨.info, "`F`: memoized0 wraps v3 []"⟩,
          ⟨.success, "`F`: 1 memo block(s), 0 direct rewrite(s)"⟩]⟩ := by cbv
    exact Function.misses_of_compile ⟨3, 4⟩ 0 hcompile (by cbv) (by decide +kernel) (by cbv) (by cbv) (by decide)
  case pattern =>
    -- The receiver is bound by the pattern, which does not change; the later `n` is bound by the instruction 4.
    let f := sortedRebound
    have hcompile : f.compile {} {} = .ok
        ⟨firstMemo (filtered (.ident "n") (.ident "a")) ["a"] :: f.body, 1, 0⟩
        ⟨[⟨.info, "lowered `F`: 8 instructions"⟩, ⟨.info, "`F`: memoized0 wraps v5 [a]"⟩,
          ⟨.success, "`F`: 1 memo block(s), 0 direct rewrite(s)"⟩]⟩ := by cbv
    exact Function.misses_of_compile ⟨5, 6⟩ 4 hcompile (by cbv) (by decide +kernel) (by cbv) (by cbv) (by decide)

end Memoizer
