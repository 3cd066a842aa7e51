import Mathlib
import Memoizer.Proofs.Origins
import Memoizer.Proofs.SpanMemos

namespace Memoizer

namespace Body

theorem isFresh_of_isExpensive {b : Body} {c : Config} {op : Op} (h : b.isExpensive c op = true) : op.IsFresh := by
  cases op with
  | object props => exact .inl ⟨props, rfl⟩
  | call receiver property args => exact .inr ⟨receiver, property, args, rfl⟩
  | param | constant | declare | read | ret => cases h

theorem Accounts.computes_start {b : Body} (hb : b.Backward) (c : Config) {exprs : List Expr}
    (h : b.Accounts 0 b.size exprs) {span : Span} (hspan : span ∈ mergedSpans (b.analyze c)) :
    ∃ source ∈ exprs, ∃ e, source.Contains e ∧ b.Computes span.start e := by
  obtain ⟨hlt, hstop⟩ := mergedSpans_bounds hb c hspan
  have hstart : span.start < b.size := Nat.lt_trans hlt hstop
  obtain ⟨op, ho⟩ := exists_op? hstart
  -- A span begins with an instruction worth a memo, and only objects and calls are.
  have hexpensive := ((memo_iff c ho).mp (memo_start hb c hspan)).1
  exact h span.start op (Nat.zero_le _) hstart ho (isFresh_of_isExpensive hexpensive)

end Body

namespace Function

theorem spelling_cases (f : Function) (log : Log) (n : InstId) (name : String) :
    (f.emitted log).spelling ((f.emitted log).latest n) name = name ∨
      ∃ d kind elems label value, (f.emitted log).latest n name = some d ∧
        (f.emitted log).op? d = some (.declare kind (.array elems) label value) ∧ name ∈ Pattern.boundNamesElems elems ∧
        (Pattern.boundNamesElems elems).head? = some ((f.emitted log).spelling ((f.emitted log).latest n) name) := by
  cases hlatest : (f.emitted log).latest n name with
  | none => exact .inl (by rw [Body.spelling, hlatest])
  | some d =>
      obtain ⟨op, ho, hname⟩ := Body.op?_of_latest hlatest
      have hspelling : (f.emitted log).spelling ((f.emitted log).latest n) name = op.boundNames.headD name := by
        rw [Body.spelling, hlatest]
        simp only [Body.dependencyNames, ho]
      rw [hspelling]
      cases loweredFrom_of_op? ho with
      | plain h =>
          rw [h] at hname
          cases hname
      | param name' => exact .inl (List.mem_singleton.mp hname).symm
      | @declared kind _ _ target _ _ _ htarget value =>
          cases target with
          | ident name' => exact .inl (List.mem_singleton.mp hname).symm
          | array elems =>
              have hbound : name ∈ Pattern.boundNamesElems elems := hname
              obtain ⟨first, rest, hnames⟩ := List.exists_cons_of_ne_nil (List.ne_nil_of_mem hbound)
              refine .inr ⟨d, kind, elems, _, value, rfl, ho, hbound, ?_⟩
              rw [Op.ofDeclaration, Op.boundNames, Pattern.boundNames, hnames]
              rfl
          | object | assign | rest => cases htarget

/-- The value is one that the statements compute, or a part of one, up to the given spellings of keys and names. -/
def Evaluates (f : Function) (keys : MemberProp → MemberProp → Prop) (names : String → String) (value : Expr) : Prop :=
  ∃ source ∈ f.body.flatMap Stmt.exprs, ∃ e, source.Contains e ∧ e.EqUpTo keys names value

/-- Each memo declaration holds an expression of the source, with the names that are written there; only names that an
array pattern binds are replaced by the first name in it. -/
theorem memo_from_source (f : Function) (c : Config) (log log' : Log) (r : Compiled) (h : f.compile c log = .ok r log') :
    ∃ body log₁, f.lower log = .ok body log₁ ∧ ∀ k < r.memoBlocks, ∃ span value, ∃ deps : List String, ∃ place,
      (mergedSpans (body.analyze c))[k]? = some span ∧
      r.stmts[k]? = some (.decl .const [.mk (.ident ("memoized" ++ toString k)) (some (.call (.ident c.memoPrimitive)
        [.arrow [] (.expr value) false, .array (deps.map fun name => some (.ident name))]))] place) ∧
      let names := body.spelling (body.latest span.start)
      f.Evaluates MemberProp.ComesBackAs names value ∧
      ∀ name, names name = name ∨ ∃ d kind elems label init, body.latest span.start name = some d ∧
        body.op? d = some (.declare kind (.array elems) label init) ∧ name ∈ Pattern.boundNamesElems elems ∧
        (Pattern.boundNamesElems elems).head? = some (names name) := by
  obtain ⟨log₁, _, hlower, _⟩ := compile_stages h
  refine ⟨_, log₁, hlower, fun k hk => ?_⟩
  obtain ⟨span, hspan, hstmt⟩ := getElem?_stmts_of_lt h hk
  obtain ⟨source, hsource, e, hpart, hcomputes⟩ :=
    (emitted_accounts hlower).computes_start (f.emitted_backward log) c (List.mem_of_getElem? hspan)
  exact ⟨span, _, _, _, hspan, hstmt, ⟨source, hsource, e, hpart, hcomputes.eqUpTo⟩, f.spelling_cases log span.start⟩

end Function

/-- `const memoized0 = useMemo(() => value, [names]);`. -/
def firstMemo (value : Expr) (names : List String) : Stmt :=
  .decl .const [.mk (.ident "memoized0") (some (.call (.ident "useMemo")
    [.arrow [] (.expr value) false, .array (names.map fun name => some (.ident name))]))] none

theorem firstMemo_inj {value value' : Expr} {names names' : List String} {name : String} {place : Option Place}
    (h : firstMemo value names = .decl .const [.mk (.ident name) (some (memoCall {} value' names'))] place) :
    value = value' ∧ names = names' := by
  have hmemo : firstMemo value names =
      .decl .const [.mk (.ident "memoized0") (some (memoCall {} value names))] none := rfl
  rw [hmemo] at h
  simp only [Stmt.decl.injEq, List.cons.injEq, Declarator.mk.injEq, Option.some.injEq, and_true, true_and] at h
  exact memoCall_inj h.1.2

def filtered (receiver test : Expr) : Expr := .call (.member receiver (.name "filter")) [test]

def sorted (e : Expr) : Expr := .call (.member e (.name "sort")) []

/-- `function F(params) { front; return receiver.filter(test).sort(); }`. -/
def filterThenSort (params : List String) (front : List Stmt) (receiver test : Expr) : Function where
  name := "F"
  params := params.map .ident
  body := front ++ [.ret (some (sorted (filtered receiver test))) none]
  async := false
  generator := false
  exported := .none
  place := none

/-- `function F() { const [n, rows] = useState(0); return rows.filter(f).sort(); }`. -/
def sortedState : Function :=
  filterThenSort [] [.decl .const [.mk (.array [some (.ident "n"), some (.ident "rows")])
    (some (.call (.ident "useState") [.literal (.number ⟨0⟩)]))] none] (.ident "rows") (.ident "f")

theorem compile_sortedState : sortedState.compile {} {} = .ok
    ⟨firstMemo (filtered (.ident "n") (.ident "f")) ["n", "rows"] :: sortedState.body, 1, 0⟩
    ⟨[⟨.info, "lowered `F`: 7 instructions"⟩, ⟨.info, "`F`: memoized0 wraps v4 [n, rows]"⟩,
      ⟨.success, "`F`: 1 memo block(s), 0 direct rewrite(s)"⟩]⟩ := by cbv

theorem memo_of_second_name : ∃ body log₁, sortedState.lower {} = .ok body log₁ ∧
    ∃ span, (mergedSpans (body.analyze {}))[0]? = some span ∧
      sortedState.Evaluates MemberProp.ComesBackAs (body.spelling (body.latest span.start))
        (filtered (.ident "n") (.ident "f")) := by
  obtain ⟨body, log₁, hlower, hmemos⟩ := Function.memo_from_source sortedState {} {} _ _ compile_sortedState
  obtain ⟨span, value, deps, place, hspan, hstmt, hvalue, _⟩ := hmemos 0 Nat.one_pos
  obtain ⟨rfl, _⟩ := firstMemo_inj (Option.some.inj hstmt)
  exact ⟨body, log₁, hlower, span, hspan, hvalue⟩

def indexed (index : Number) : Expr := .member (.ident "a") (.computed (.literal (.number index)))

def sortedBy (index : Number) : Function := filterThenSort ["a"] [] (.ident "a") (indexed index)

def sortedByBody (i : Nat) : Body where
  name := "F"
  insts := [⟨.param "a", none⟩, ⟨.read 0 (.index i), none⟩, ⟨.call 0 (some (.named "filter")) [.value 1], none⟩,
    ⟨.call 2 (some (.named "sort")) [], none⟩, ⟨.ret (some 3), none⟩]

def sortedByBlock : Block :=
  ⟨⟨2, 3⟩, [(2, ⟨.call 0 (some (.named "filter")) [.value 1], none⟩), (3, ⟨.call 2 (some (.named "sort")) [], none⟩)],
    [0, 1]⟩

theorem lower_sortedBy {x : Number} {i : Nat} (h : x.index? = some i) :
    (sortedBy x).lower {} = .ok (sortedByBody i) ⟨[⟨.info, "lowered `F`: 5 instructions"⟩]⟩ := by
  -- The index is rewritten and never computed: evaluation would unfold the powers of two in it.
  simp only [sortedBy, filterThenSort, List.map_cons, List.map_nil, List.nil_append, Function.lower, Function.lowerInto,
    Pattern.lowerParams, Pattern.lowerParam, Stmt.lowerAll, Stmt.lower, sorted, filtered, indexed, Expr.lower,
    Expr.lowerOperands, MemberProp.resolve, h, Option.map_some]
  cbv

theorem rebuildExpr_sortedByBody (i : Nat) :
    (sortedByBody i).rebuildExpr 2 = filtered (.ident "a") (indexed (.ofNat i)) := by
  have hb : (sortedByBody i).Backward := Body.backward_iff_all.mpr rfl
  have hparam : (sortedByBody i).op? 0 = some (.param "a") := rfl
  have hread : (sortedByBody i).op? 1 = some (.read 0 (.index i)) := rfl
  have hcall : (sortedByBody i).op? 2 = some (.call 0 (some (.named "filter")) [.value 1]) := rfl
  have hfilter : Text.isName "filter" = true := by decide +kernel
  have ha : (sortedByBody i).rebuildExpr 0 = .ident "a" := Body.rebuildExpr_eq hb hparam
  rw [Body.rebuildExpr_eq hb hcall, Op.rebuildWith, ha, Property.accessOf, if_pos hfilter, List.map_singleton,
    Operand.rebuildWith, Body.rebuildExpr_eq hb hread, Op.rebuildWith, ha]
  rfl

theorem compile_sortedBy {x : Number} {i : Nat} (h : x.index? = some i) : ∃ log', (sortedBy x).compile {} {} = .ok
    ⟨firstMemo (filtered (.ident "a") (indexed (.ofNat i))) ["a"] :: (sortedBy x).body, 1, 0⟩ log' := by
  have hitems : (sortedByBody i).partition ((sortedByBody i).analyze {}) =
      .ok [.pass 0, .pass 1, .block sortedByBlock, .pass 4] := by cbv
  have hfirst : (sortedByBlock.keys.find? fun id => (factsAt ((sortedByBody i).analyze {}) id).memo) = some 2 := by cbv
  have hdeps : (sortedByBody i).blockDependencies sortedByBlock = ["a"] := rfl
  have hcompile := Function.compile_of_analyze_ok (Function.analyze_of_lower_ok (lower_sortedBy h) hitems)
  simp only [FunctionAnalysis.memoDecls, Body.memoDecls, Body.memoDecl, hfirst, hdeps, rebuildExpr_sortedByBody]
    at hcompile
  exact ⟨_, hcompile⟩

theorem Function.not_evaluates_of_closed {f : Function} {keys : MemberProp → MemberProp → Prop} {names : String → String}
    {value : Expr} {parts : List Expr} (hsources : ∀ source ∈ f.body.flatMap Stmt.exprs, source ∈ parts)
    (hparts : ∀ e ∈ parts, ∀ operand ∈ e.operands, operand ∈ parts)
    (h : ∀ e ∈ parts, ¬ e.EqUpTo keys names value) : ¬ f.Evaluates keys names value := by
  rintro ⟨source, hsource, e, hpart, he⟩
  exact h e (hpart.mem_of_closed (hsources source hsource) hparts) he

theorem eqUpTo_filtered {keys : MemberProp → MemberProp → Prop} {names : String → String} {receiver test e : Expr}
    (h : e.EqUpTo keys names (filtered receiver test)) : ∃ receiver' p test', e = .call (.member receiver' p) [test'] ∧
      receiver'.EqUpTo keys names receiver ∧ test'.EqUpTo keys names test := by
  cases h with
  | whole hwhole => cases hwhole
  | call hcallee hargs =>
      obtain ⟨test', _, htest, hnil, rfl⟩ := List.forall₂_cons_right_iff.mp hargs
      obtain rfl := List.forall₂_nil_right_iff.mp hnil
      cases hcallee with
      | whole hwhole => cases hwhole
      | member hreceiver hkey => exact ⟨_, _, test', rfl, hreceiver, htest⟩

theorem not_evaluates_sortedState {keys : MemberProp → MemberProp → Prop} :
    ¬ sortedState.Evaluates keys id (filtered (.ident "n") (.ident "f")) := by
  let parts : List Expr := [sorted (filtered (.ident "rows") (.ident "f")), filtered (.ident "rows") (.ident "f"),
    .ident "rows", .ident "f", .call (.ident "useState") [.literal (.number ⟨0⟩)], .ident "useState",
    .literal (.number ⟨0⟩)]
  have hsources : ∀ source ∈ sortedState.body.flatMap Stmt.exprs, source ∈ parts := by
    simp [parts, sortedState, filterThenSort, Stmt.exprs, Declarator.init]
  have hparts : ∀ e ∈ parts, ∀ operand ∈ e.operands, operand ∈ parts := by
    simp [parts, sorted, filtered, Expr.operands, MemberProp.resolve]
  refine Function.not_evaluates_of_closed hsources hparts fun e hpart he => ?_
  obtain ⟨receiver, p, test, rfl, hreceiver, _⟩ := eqUpTo_filtered he
  obtain ⟨⟨rfl, _⟩, _⟩ : (receiver = .ident "rows" ∧ p = .name "filter") ∧ test = .ident "f" := by
    simpa [parts, sorted, filtered] using hpart
  simpa using Expr.EqUpTo.ident_iff.mp hreceiver

theorem not_evaluates_sortedBy {x y : Number} {i : Nat} (hx : x.index? = some i) (hpos : x.wholePart? ≠ some 0)
    (hne : x ≠ y) : ¬ (sortedBy x).Evaluates MemberProp.SameKey id (filtered (.ident "a") (indexed y)) := by
  let parts : List Expr := [sorted (filtered (.ident "a") (indexed x)), filtered (.ident "a") (indexed x), .ident "a",
    indexed x]
  have hsources : ∀ source ∈ (sortedBy x).body.flatMap Stmt.exprs, source ∈ parts := by
    simp [parts, sortedBy, filterThenSort, Stmt.exprs]
  have hparts : ∀ e ∈ parts, ∀ operand ∈ e.operands, operand ∈ parts := by
    simp [parts, sorted, filtered, indexed, Expr.operands, MemberProp.resolve, hx]
  have hresolve : MemberProp.resolve (.computed (.literal (.number x))) = some (.index i) := by
    rw [MemberProp.resolve, hx, Option.map_some]
  refine Function.not_evaluates_of_closed hsources hparts fun e hpart he => ?_
  obtain ⟨receiver, p, test, rfl, _, htest⟩ := eqUpTo_filtered he
  obtain ⟨_, rfl⟩ : (receiver = .ident "a" ∧ p = .name "filter") ∧ test = indexed x := by
    simpa [parts, sorted, filtered, indexed] using hpart
  obtain ⟨_, _, hsame, _, hkey⟩ := (Expr.EqUpTo.member_iff hresolve).mp htest
  cases hsame
  rcases MemberProp.sameKey_number_iff.mp hkey with hxy | ⟨hzero, _⟩
  · exact hne hxy
  · exact hpos hzero

/-- Neither the second name of a pattern nor an index that is too large comes back as it was written. -/
theorem memo_not_from_source :
    (∃ r log', sortedState.compile {} {} = .ok r log' ∧ 0 < r.memoBlocks ∧
      r.stmts[0]? = some (firstMemo (filtered (.ident "n") (.ident "f")) ["n", "rows"]) ∧
      ¬ sortedState.Evaluates MemberProp.SameKey id (filtered (.ident "n") (.ident "f"))) ∧
    ∃ r log', (sortedBy ⟨0x4415AF1D78B58C40⟩).compile {} {} = .ok r log' ∧ 0 < r.memoBlocks ∧
      r.stmts[0]? = some (firstMemo (filtered (.ident "a") (indexed ⟨0x43F0000000000000⟩)) ["a"]) ∧
      ¬ (sortedBy ⟨0x4415AF1D78B58C40⟩).Evaluates MemberProp.SameKey id
        (filtered (.ident "a") (indexed ⟨0x43F0000000000000⟩)) := by
  constructor
  · exact ⟨_, _, compile_sortedState, Nat.one_pos, rfl, not_evaluates_sortedState⟩
  · have hlarge : Number.index? ⟨0x4415AF1D78B58C40⟩ = some (Number.twoPow 64 - 1) := by decide +kernel
    have hback : Number.ofNat (Number.twoPow 64 - 1) = ⟨0x43F0000000000000⟩ := by decide +kernel
    obtain ⟨log', hcompile⟩ := compile_sortedBy hlarge
    rw [hback] at hcompile
    exact ⟨_, log', hcompile, Nat.one_pos, rfl, not_evaluates_sortedBy hlarge (by decide +kernel) (by decide)⟩

end Memoizer
