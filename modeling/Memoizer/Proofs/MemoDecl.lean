import Memoizer.Proofs.Compile
import Memoizer.Proofs.Partition
import Memoizer.Proofs.Wrapping

namespace Memoizer

def DeclKind.isLexical : DeclKind → Bool
  | .var => false
  | .const => true
  | .lexical => true

def Op.isLexical : Op → Bool
  | .declare kind _ _ _ => kind.isLexical
  | _ => false

def Stmt.lexical : Stmt → List String
  | .decl kind declarators _ => if kind.isLexical then Declarator.namesOf declarators else []
  | _ => []

/-- The names that cannot be read in front of the statements. -/
def Stmt.lexicalNames (stmts : List Stmt) : List String := stmts.flatMap Stmt.lexical

theorem Declarator.target_wrap (c : Config) (d : Declarator) : (d.wrap c).value.target = d.target := by
  obtain ⟨target, _ | init⟩ := d
  · rfl
  · rw [Declarator.wrap]
    cases init.wrapping c <;> rfl

theorem Stmt.lexical_wrap (c : Config) (s : Stmt) : (s.wrap c).value.lexical = s.lexical := by
  cases s with
  | decl kind declarators place =>
      have hnames : Declarator.namesOf (wrapEach (Declarator.wrap c) declarators).value =
          Declarator.namesOf declarators := by
        rw [value_wrapEach, Declarator.namesOf, Declarator.namesOf, List.flatMap_map]
        simp only [Declarator.target_wrap]
      rw [Stmt.wrap, Wrapped.map, Stmt.lexical, hnames]
      rfl
  | ret | expr | verbatim => rfl

theorem Function.lexicalNames_wrapStmts (f : Function) (c : Config) :
    Stmt.lexicalNames (f.wrapStmts c).value = Stmt.lexicalNames f.body := by
  rw [Function.wrapStmts]
  split
  · rw [wrapInitializers, value_wrapEach, Stmt.lexicalNames, Stmt.lexicalNames, List.flatMap_map]
    simp only [Stmt.lexical_wrap]
  · rfl

theorem Op.LoweredFrom.mem_lexicalNames {stmts : List Stmt} {op : Op} (h : op.LoweredFrom stmts)
    (hlex : op.isLexical = true) {name : String} (hname : name ∈ op.boundNames) : name ∈ Stmt.lexicalNames stmts := by
  cases h with
  | plain hnone => rw [hnone] at hname; cases hname
  | param => cases hlex
  | @declared kind _ _ _ _ hs hd _ value =>
      have hkind : kind.isLexical = true := hlex
      refine List.mem_flatMap.mpr ⟨_, hs, ?_⟩
      rw [Stmt.lexical, if_pos hkind]
      exact List.mem_flatMap.mpr ⟨_, hd, hname⟩

theorem mem_firstOccurrences {name : String} {names : List String} : name ∈ firstOccurrences names ↔ name ∈ names := by
  have hmem : name ∈ firstOccurrences names ↔ name ∈ [] ∨ name ∈ names := mem_foldl_appendNew []
  simpa using hmem

namespace Body

variable {b : Body} {c : Config} {facts : SideTable Facts}

theorem mem_dependencyNames_iff {id : InstId} {name : String} :
    name ∈ b.dependencyNames id ↔ ∃ op, b.op? id = some op ∧ name ∈ op.boundNames := by
  rw [dependencyNames]
  cases b.op? id <;> simp

theorem mem_blockDependencies_iff {block : Block} {name : String} :
    name ∈ b.blockDependencies block ↔ ∃ d ∈ block.deps, ∃ op, b.op? d = some op ∧ name ∈ op.boundNames := by
  rw [blockDependencies, mem_firstOccurrences, List.mem_flatMap]
  simp only [mem_dependencyNames_iff]

def memoStmt (b : Body) (c : Config) (n : Nat) (block : Block) (target : InstId) : Stmt :=
  .decl .const [.mk (.ident (memoName n)) (some (memoCall c (b.rebuildExpr target) (b.blockDependencies block)))]
    (b.placeAt target)

theorem memoDecl_decl_cases (b : Body) (c : Config) (facts : SideTable Facts) (n : Nat) (block : Block) :
    (b.memoDecl c facts n block).decl = none ∨
      ∃ target, (b.memoDecl c facts n block).decl = some (b.memoStmt c n block target) := by
  rw [memoDecl]
  split
  · exact .inl rfl
  · split
    · exact .inl rfl
    next target _ => exact .inr ⟨target, rfl⟩

theorem memoDecls_getElem? {n k : Nat} {items : List PartItem} {stmt : Stmt}
    (h : (b.memoDecls c facts n items).1[k]? = some stmt) :
    ∃ block ∈ blocksOf items, ∃ target, stmt = b.memoStmt c (n + k) block target := by
  induction items generalizing n k with
  | nil => simp [memoDecls] at h
  | cons item items ih =>
      cases item with
      | pass id => exact ih h
      | block block =>
          have hhead : block ∈ blocksOf (.block block :: items) := List.mem_cons_self
          have hrest {block' : Block} (hb : block' ∈ blocksOf items) : block' ∈ blocksOf (.block block :: items) :=
            List.mem_cons_of_mem _ hb
          rw [memoDecls] at h
          rcases memoDecl_decl_cases b c facts n block with hnone | ⟨target, hsome⟩
          · simp only [hnone, Option.toList_none, List.nil_append] at h
            obtain ⟨block', hb, target, rfl⟩ := ih h
            exact ⟨block', hrest hb, target, rfl⟩
          · simp only [hsome, Option.toList_some, List.singleton_append, List.length_singleton] at h
            cases k with
            | zero =>
                cases h
                exact ⟨block, hhead, target, rfl⟩
            | succ k =>
                obtain ⟨block', hb, target, rfl⟩ := ih h
                refine ⟨block', hrest hb, target, ?_⟩
                rw [Nat.add_assoc, Nat.add_comm 1 k]

end Body

theorem FunctionAnalysis.memoDecls_getElem? {a : FunctionAnalysis} {c : Config} {k : Nat} {stmt : Stmt}
    (h : (a.memoDecls c).1[k]? = some stmt) :
    ∃ block ∈ blocksOf a.items, ∃ target, stmt = a.body.memoStmt c k block target := by
  rw [FunctionAnalysis.memoDecls] at h
  split at h
  · simpa using Body.memoDecls_getElem? h
  · simp at h

/-- A memo declaration can be read in front of the statements exactly if nothing that its block depends on is
declared by `const` or `let`, or has a name that is declared so again. -/
theorem Function.memo_readable_iff (f : Function) (c : Config) (log log' : Log) (r : Compiled)
    (h : f.compile c log = .ok r log') :
    ∃ items, (f.emitted log).partition ((f.emitted log).analyze c) = .ok items ∧
      ∀ k < r.memoBlocks, ∃ block ∈ blocksOf items, ∃ value, ∃ names : List String, ∃ place,
        r.stmts[k]? = some (.decl .const [.mk (.ident (memoName k)) (some (.call (.ident c.memoPrimitive)
          [.arrow [] (.expr value) false, .array (names.map fun name => some (.ident name))]))] place) ∧
        (∀ name, name ∈ names ↔ ∃ d ∈ block.deps, ∃ op, (f.emitted log).op? d = some op ∧ name ∈ op.boundNames) ∧
        (∀ d ∈ block.deps, d < block.span.start) ∧
        ((∀ name ∈ names, name ∉ Stmt.lexicalNames (r.stmts.drop r.memoBlocks)) ↔
          ∀ d ∈ block.deps, ∀ op, (f.emitted log).op? d = some op → ∀ name ∈ op.boundNames,
            op.isLexical = false ∧ name ∉ Stmt.lexicalNames f.body) := by
  obtain ⟨items, hitems, hstmts, hcount⟩ := Function.compile_eq_ok h
  refine ⟨items, hitems, fun k hk => ?_⟩
  have hlt : k < (FunctionAnalysis.memoDecls ⟨f.emitted log, (f.emitted log).analyze c, items⟩ c).1.length := hcount ▸ hk
  obtain ⟨block, hblock, target, hstmt⟩ := FunctionAnalysis.memoDecls_getElem? (List.getElem?_eq_getElem hlt)
  obtain ⟨span, _, hspan⟩ := List.mem_map.mp ((Body.blocksOf_partition hitems).subset hblock)
  have hrest : r.stmts.drop r.memoBlocks = (f.wrapStmts c).value := by rw [hstmts, hcount, List.drop_left]
  refine ⟨block, hblock, (f.emitted log).rebuildExpr target, (f.emitted log).blockDependencies block,
    (f.emitted log).placeAt target, ?_, fun _ => Body.mem_blockDependencies_iff, ?_, ?_⟩
  · rw [hstmts, List.getElem?_append_left hlt, List.getElem?_eq_getElem hlt, hstmt]
    rfl
  · intro d hd
    subst hspan
    exact Body.lt_start_of_mem_deps (f.emitted_backward log) c hd
  · rw [hrest, f.lexicalNames_wrapStmts c]
    constructor
    -- A lexical declaration among the dependencies comes from one of the statements behind.
    · intro hread d hd op ho name hname
      have hout := hread name (Body.mem_blockDependencies_iff.mpr ⟨d, hd, op, ho, hname⟩)
      refine ⟨?_, hout⟩
      by_contra hlex
      rw [Bool.not_eq_false] at hlex
      exact hout ((Function.loweredFrom_of_op? ho).mem_lexicalNames hlex hname)
    · intro hdeps name hname
      obtain ⟨d, hd, op, ho, hbound⟩ := Body.mem_blockDependencies_iff.mp hname
      exact (hdeps d hd op ho name hbound).2

/-- `function F(a) { front; return name.filter().sort(); }`. -/
def sortedFilter (front : List Stmt) (name : String) : Function where
  name := "F"
  params := [.ident "a"]
  body := front ++
    [.ret (some (.call (.member (.call (.member (.ident name) (.name "filter")) []) (.name "sort")) [])) none]
  async := false
  generator := false
  exported := .none
  place := none

/-- `const memoized0 = useMemo(() => name.filter(), [name]);`. -/
def memoOfFilter (name : String) : Stmt :=
  .decl .const [.mk (.ident "memoized0") (some (.call (.ident "useMemo")
    [.arrow [] (.expr (.call (.member (.ident name) (.name "filter")) [])) false, .array [some (.ident name)]]))] none

theorem memo_of_param_readable : ∃ r log', (sortedFilter [] "a").compile {} {} = .ok r log' ∧
    r.stmts[0]? = some (memoOfFilter "a") ∧ "a" ∉ Stmt.lexicalNames (r.stmts.drop r.memoBlocks) ∧
    ∃ block : Block, ∃ d ∈ block.deps, d < block.span.start ∧
      ∃ op, ((sortedFilter [] "a").emitted {}).op? d = some op ∧ "a" ∈ op.boundNames ∧ op.isLexical = false := by
  have hcompile : (sortedFilter [] "a").compile {} {} = .ok ⟨memoOfFilter "a" :: (sortedFilter [] "a").body, 1, 0⟩
      ⟨[⟨.info, "lowered `F`: 4 instructions"⟩, ⟨.info, "`F`: memoized0 wraps v1 [a]"⟩,
        ⟨.success, "`F`: 1 memo block(s), 0 direct rewrite(s)"⟩]⟩ := by with_unfolding_all rfl
  have hread : "a" ∉ Stmt.lexicalNames (sortedFilter [] "a").body := by decide
  refine ⟨_, _, hcompile, rfl, hread, ?_⟩
  obtain ⟨items, _, hall⟩ := Function.memo_readable_iff _ _ _ _ _ hcompile
  obtain ⟨block, _, value, names, place, hstmt, hnames, hfront, hiff⟩ := hall 0 (by decide)
  have hmemo : memoOfFilter "a" =
      .decl .const [.mk (.ident (memoName 0)) (some (memoCall {} value names))] place := Option.some.inj hstmt
  simp only [memoOfFilter, Stmt.decl.injEq, List.cons.injEq, Declarator.mk.injEq, Option.some.injEq, true_and,
    and_true] at hmemo
  obtain ⟨_, rfl⟩ := memoCall_inj (show memoCall {} _ ["a"] = memoCall {} value names from hmemo.1.2)
  obtain ⟨d, hd, op, ho, hname⟩ := (hnames "a").mp (by simp)
  have hplain := hiff.mp (by simpa using hread) d hd op ho "a" hname
  exact ⟨block, d, hd, hfront d hd, op, ho, hname, hplain.1⟩

/-- The array of `memoized0` names `b`, which is declared by `const` behind it. -/
theorem memo_of_const_unreadable : ∃ r log',
    (sortedFilter [.decl .const [.mk (.ident "b") (some (.member (.ident "a") (.name "b")))] none] "b").compile {} {} =
        .ok r log' ∧
      r.stmts[0]? = some (memoOfFilter "b") ∧ "b" ∈ Stmt.lexicalNames (r.stmts.drop r.memoBlocks) := by
  refine ⟨⟨memoOfFilter "b" :: (sortedFilter
      [.decl .const [.mk (.ident "b") (some (.member (.ident "a") (.name "b")))] none] "b").body, 1, 0⟩,
    ⟨[⟨.info, "lowered `F`: 6 instructions"⟩, ⟨.info, "`F`: memoized0 wraps v3 [b]"⟩,
      ⟨.success, "`F`: 1 memo block(s), 0 direct rewrite(s)"⟩]⟩, ?_, rfl, ?_⟩
  · with_unfolding_all rfl
  · decide

end Memoizer
