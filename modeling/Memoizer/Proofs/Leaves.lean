import Memoizer.FreeNames

namespace Memoizer

def Pattern.namesOf (params : List Pattern) : List String := params.flatMap Pattern.boundNames

def Declarator.namesOf (declarators : List Declarator) : List String :=
  declarators.flatMap fun d => d.target.boundNames

def Stmt.declared : Stmt → List String
  | .decl _ declarators _ => Declarator.namesOf declarators
  | _ => []

def Stmt.namesOf (stmts : List Stmt) : List String := stmts.flatMap Stmt.declared

def ArrowBody.declared : ArrowBody → List String
  | .expr _ => []
  | .block stmts => Stmt.namesOf stmts

/-- The names that functions around a place bind: those that a scan has bound when it comes there, those that can be
seen from there, and those that are bound anywhere in these functions. -/
structure Scope where
  bound : List String := []
  visible : List String := []
  anywhere : List String := []
deriving DecidableEq

namespace Scope

def bind (names : List String) (s : Scope) : Scope := { s with bound := s.bound ++ names }

-- The parameters of a function see each other, but not what its body declares.
def enter (names declared : List String) (s : Scope) : Scope :=
  { s with visible := s.visible ++ names, anywhere := s.anywhere ++ (names ++ declared) }

def enterBody (names declared : List String) (s : Scope) : Scope :=
  { (s.enter names declared).bind names with visible := s.visible ++ names ++ declared }

structure Nested (s : Scope) : Prop where
  bound_subset : s.bound ⊆ s.visible
  visible_subset : s.visible ⊆ s.anywhere

@[simp]
theorem bind_nil (s : Scope) : s.bind [] = s := by rw [bind, List.append_nil]

theorem bind_append (s : Scope) (names names' : List String) : s.bind (names ++ names') = (s.bind names).bind names' := by
  simp only [bind, List.append_assoc]

theorem Nested.of_bind {s : Scope} {names : List String} (h : (s.bind names).Nested) : s.Nested :=
  ⟨List.Subset.trans (List.subset_append_left _ _) h.bound_subset, h.visible_subset⟩

theorem Nested.enter {s : Scope} (h : s.Nested) (names declared : List String) :
    ((s.enter names declared).bind names).Nested where
  bound_subset := List.append_subset.mpr
    ⟨List.subset_append_of_subset_left _ h.bound_subset, List.subset_append_right _ _⟩
  visible_subset := List.append_subset.mpr ⟨List.subset_append_of_subset_left _ h.visible_subset,
    List.subset_append_of_subset_right _ (List.subset_append_left _ _)⟩

theorem Nested.enterBody {s : Scope} (h : s.Nested) (names declared : List String) :
    ((s.enterBody names declared).bind declared).Nested where
  bound_subset := List.append_subset.mpr
    ⟨List.subset_append_of_subset_left _ (h.enter names declared).bound_subset, List.subset_append_right _ _⟩
  visible_subset := List.append_subset.mpr ⟨(h.enter names declared).visible_subset,
    List.subset_append_of_subset_right _ (List.subset_append_right _ _)⟩

end Scope

/-- A place where an expression reads a name or, where there is none, holds text verbatim. It is in a target if it is part
of a default or a computed key in the target of a declaration. -/
structure Leaf where
  name : Option String
  scope : Scope
  inTarget : Bool := false
deriving DecidableEq

mutual

def Expr.leaves (scope : Scope) : Expr → List Leaf
  | .literal _ => []
  | .verbatim _ => [⟨none, scope, false⟩]
  | .ident name => [⟨some name, scope, false⟩]
  | .member object property => object.leaves scope ++ property.leaves scope
  | .optionalMember object property => object.leaves scope ++ property.leaves scope
  | .call callee args => callee.leaves scope ++ Expr.leavesAll scope args
  | .optionalCall callee args => callee.leaves scope ++ Expr.leavesAll scope args
  | .new callee args => callee.leaves scope ++ Expr.leavesAll scope args
  | .template _ exprs => Expr.leavesAll scope exprs
  | .object members => ObjectMember.leavesAll scope members
  | .array elems => Expr.leavesElems scope elems
  | .arrow params body _ =>
    Pattern.leavesParams (scope.enter (Pattern.namesOf params) body.declared) params ++
      body.leaves (scope.enterBody (Pattern.namesOf params) body.declared)
  | .function name params body _ _ =>
    let names := name.toList ++ Pattern.namesOf params
    Pattern.leavesParams ((scope.enter names (Stmt.namesOf body)).bind name.toList) params ++
      Stmt.leavesAll (scope.enterBody names (Stmt.namesOf body)) body
  | .unary _ operand => operand.leaves scope
  | .spread value => value.leaves scope
  | .binary _ lhs rhs => lhs.leaves scope ++ rhs.leaves scope
  | .conditional test yes no => test.leaves scope ++ yes.leaves scope ++ no.leaves scope
  | .assign _ target value => target.leaves scope ++ value.leaves scope

def MemberProp.leaves (scope : Scope) : MemberProp → List Leaf
  | .name _ => []
  | .computed index => index.leaves scope

def ArrowBody.leaves (scope : Scope) : ArrowBody → List Leaf
  | .expr value => value.leaves scope
  | .block stmts => Stmt.leavesAll scope stmts

def Expr.leavesAll (scope : Scope) : List Expr → List Leaf
  | [] => []
  | e :: exprs => e.leaves scope ++ Expr.leavesAll scope exprs

def Expr.leavesElems (scope : Scope) : List (Option Expr) → List Leaf
  | [] => []
  | none :: elems => Expr.leavesElems scope elems
  | some e :: elems => e.leaves scope ++ Expr.leavesElems scope elems

def PropKey.leaves (scope : Scope) : PropKey → List Leaf
  | .computed expr => expr.leaves scope
  | .ident _ => []
  | .string _ => []
  | .number _ => []

def ObjectMember.leavesAll (scope : Scope) : List ObjectMember → List Leaf
  | [] => []
  | .property key value _ :: members =>
    key.leaves scope ++ value.leaves scope ++ ObjectMember.leavesAll scope members
  | .spread value :: members => value.leaves scope ++ ObjectMember.leavesAll scope members
  | .verbatim _ :: members => ⟨none, scope, false⟩ :: ObjectMember.leavesAll scope members

-- The defaults and computed keys inside a pattern.
def Pattern.leaves (scope : Scope) : Pattern → List Leaf
  | .ident _ => []
  | .array elems => Pattern.leavesElems scope elems
  | .object props none => PatternProp.leavesAll scope props
  | .object props (some others) => PatternProp.leavesAll scope props ++ others.leaves scope
  | .assign target value => value.leaves scope ++ target.leaves scope
  | .rest target => target.leaves scope

def Pattern.leavesElems (scope : Scope) : List (Option Pattern) → List Leaf
  | [] => []
  | none :: elems => Pattern.leavesElems scope elems
  | some p :: elems => p.leaves scope ++ Pattern.leavesElems scope elems

def PatternProp.leavesAll (scope : Scope) : List PatternProp → List Leaf
  | [] => []
  | .mk key value _ :: props => key.leaves scope ++ value.leaves scope ++ PatternProp.leavesAll scope props

-- A parameter is bound for the ones behind it, but not in its own defaults.
def Pattern.leavesParams (scope : Scope) : List Pattern → List Leaf
  | [] => []
  | p :: params => p.leaves scope ++ Pattern.leavesParams (scope.bind p.boundNames) params

def Declarator.leavesAll (scope : Scope) : List Declarator → List Leaf
  | [] => []
  | .mk target none :: declarators =>
    (target.leaves scope).map ({ · with inTarget := true }) ++
      Declarator.leavesAll (scope.bind target.boundNames) declarators
  | .mk target (some init) :: declarators =>
    init.leaves scope ++ (target.leaves scope).map ({ · with inTarget := true }) ++
      Declarator.leavesAll (scope.bind target.boundNames) declarators

def Stmt.leavesAll (scope : Scope) : List Stmt → List Leaf
  | [] => []
  | .decl _ declarators _ :: stmts =>
    Declarator.leavesAll scope declarators ++ Stmt.leavesAll (scope.bind (Declarator.namesOf declarators)) stmts
  | .ret none _ :: stmts => Stmt.leavesAll scope stmts
  | .ret (some value) _ :: stmts => value.leaves scope ++ Stmt.leavesAll scope stmts
  | .expr value _ :: stmts => value.leaves scope ++ Stmt.leavesAll scope stmts
  | .verbatim .. :: stmts => ⟨none, scope, false⟩ :: Stmt.leavesAll scope stmts

end

namespace Leaf

/-- The name that a scan takes here for one from outside. -/
def escaping? (c : Config) (l : Leaf) : Option String :=
  l.name.filter fun name => !(l.inTarget || l.scope.bound.contains name || c.isIgnored name)

def escaping (c : Config) (leaves : List Leaf) : List String := leaves.filterMap (escaping? c)

def blocks (l : Leaf) : Bool := !l.inTarget && l.name.isNone

theorem escaping_append (c : Config) (first second : List Leaf) :
    escaping c (first ++ second) = escaping c first ++ escaping c second := List.filterMap_append

theorem escaping_name (c : Config) (name : String) (scope : Scope) :
    escaping c [⟨some name, scope, false⟩] = if scope.bound.contains name || c.isIgnored name then [] else [name] := by
  rw [escaping, List.filterMap_cons, escaping?, Option.filter_some, Bool.false_or, List.filterMap_nil]
  cases scope.bound.contains name || c.isIgnored name <;> rfl

theorem escaping_of_inTarget {c : Config} {leaves : List Leaf} (h : ∀ l ∈ leaves, l.inTarget = true) :
    escaping c leaves = [] := by
  rw [escaping, List.filterMap_eq_nil_iff]
  intro l hl
  rw [escaping?, h l hl]
  cases l.name <;> rfl

theorem any_blocks_of_inTarget {leaves : List Leaf} (h : ∀ l ∈ leaves, l.inTarget = true) : leaves.any blocks = false := by
  rw [List.any_eq_false]
  intro l hl
  simp [blocks, h l hl]

theorem mem_escaping_iff {c : Config} {leaves : List Leaf} {name : String} : name ∈ escaping c leaves ↔
    c.isIgnored name = false ∧ ∃ l ∈ leaves, l.inTarget = false ∧ l.name = some name ∧ name ∉ l.scope.bound := by
  simp only [escaping, List.mem_filterMap, escaping?, Option.filter_eq_some_iff, Bool.not_eq_true', Bool.or_eq_false_iff,
    List.contains_eq_mem, decide_eq_false_iff_not]
  constructor
  · rintro ⟨l, hl, hname, ⟨hout, hbound⟩, hignored⟩
    exact ⟨hignored, l, hl, hout, hname, hbound⟩
  · rintro ⟨hignored, l, hl, hout, hname, hbound⟩
    exact ⟨l, hl, hname, ⟨hout, hbound⟩, hignored⟩

theorem nested_singleton {scope : Scope} (h : (scope.bind []).Nested) (name : Option String) :
    ∀ l ∈ [(⟨name, scope, false⟩ : Leaf)], l.inTarget = false → l.scope.Nested := by
  intro l hl _
  rw [List.mem_singleton] at hl
  subst hl
  rwa [Scope.bind_nil] at h

end Leaf

def appendNew (seen : List String) (name : String) : List String :=
  if seen.contains name then seen else seen ++ [name]

theorem mem_foldl_appendNew {name : String} {names : List String} (seen : List String) :
    name ∈ names.foldl appendNew seen ↔ name ∈ seen ∨ name ∈ names := by
  induction names generalizing seen with
  | nil => simp
  | cons first names ih =>
      rw [List.foldl_cons, ih, List.mem_cons, appendNew]
      split
      next hc =>
        have hseen : first ∈ seen := by simpa using hc
        constructor
        · exact Or.imp_right .inr
        · rintro (h | rfl | h)
          · exact .inl h
          · exact .inl hseen
          · exact .inr h
      next => simp [or_assoc]

/-- A piece of a scan that binds `names` for what follows it and comes by the given leaves. It adds the names that escape
there, each once, and these depend on the scope only by what is bound. Where all that is bound can be seen, this stays so. -/
structure Reads (c : Config) (piece : Scan → Scan) (names : List String) (leaves : Scope → List Leaf) : Prop where
  bound_eq : ∀ s, (piece s).bound = s.bound ++ names
  found_eq : ∀ s, (piece s).found = (Leaf.escaping c (leaves { bound := s.bound })).foldl appendNew s.found
  unreadable_eq : ∀ s scope, (piece s).unreadable = (s.unreadable || (leaves scope).any Leaf.blocks)
  escaping_eq : ∀ scope, Leaf.escaping c (leaves scope) = Leaf.escaping c (leaves { bound := scope.bound })
  nested : ∀ scope, (scope.bind names).Nested → ∀ l ∈ leaves scope, l.inTarget = false → l.scope.Nested

namespace Reads

variable {c : Config} {first second : Scan → Scan} {names names' : List String} {leaves leaves' : Scope → List Leaf}

theorem nil : Reads c id [] fun _ => [] where
  bound_eq _ := (List.append_nil _).symm
  found_eq _ := rfl
  unreadable_eq _ _ := (Bool.or_false _).symm
  escaping_eq _ := rfl
  nested _ _ l hl := by cases hl

theorem markUnreadable : Reads c Scan.markUnreadable [] fun scope => [⟨none, scope, false⟩] where
  bound_eq _ := (List.append_nil _).symm
  found_eq _ := rfl
  unreadable_eq _ _ := (Bool.or_true _).symm
  escaping_eq _ := rfl
  nested _ hscope := Leaf.nested_singleton hscope _

theorem reference (name : String) : Reads c (Scan.reference c name) [] fun scope => [⟨some name, scope, false⟩] where
  bound_eq s := by rw [Scan.reference]; split <;> simp
  found_eq s := by
    rw [Scan.reference, Leaf.escaping_name]
    cases s.bound.contains name || c.isIgnored name with
    | true => rfl
    | false =>
        change Scan.found (if s.found.contains name then s else _) = if s.found.contains name then s.found else _
        split <;> rfl
  unreadable_eq s _ := by
    rw [Scan.reference]
    split <;> exact (Bool.or_false _).symm
  escaping_eq _ := rfl
  nested _ hscope := Leaf.nested_singleton hscope _

/-- A declaration binds the names of its target, whose own leaves the scan passes by. -/
theorem bind (names : List String) (ht : ∀ scope, ∀ l ∈ leaves scope, l.inTarget = true) :
    Reads c (Scan.bind names) names leaves where
  bound_eq _ := rfl
  found_eq s := by
    rw [Leaf.escaping_of_inTarget (ht _)]
    rfl
  unreadable_eq s scope := by
    rw [Leaf.any_blocks_of_inTarget (ht scope), Bool.or_false]
    rfl
  escaping_eq scope := by rw [Leaf.escaping_of_inTarget (ht _), Leaf.escaping_of_inTarget (ht _)]
  nested scope _ l hl hout := by
    rw [ht scope l hl] at hout
    cases hout

theorem append (h : Reads c first names leaves) (h' : Reads c second names' leaves') :
    Reads c (fun s => second (first s)) (names ++ names') (fun scope => leaves scope ++ leaves' (scope.bind names)) where
  bound_eq s := by rw [h'.bound_eq, h.bound_eq, List.append_assoc]
  found_eq s := by
    rw [h'.found_eq, h.found_eq, h.bound_eq, Leaf.escaping_append, List.foldl_append]
    rfl
  unreadable_eq s scope := by
    rw [h'.unreadable_eq _ (scope.bind names), h.unreadable_eq s scope, List.any_append, Bool.or_assoc]
  escaping_eq scope := by
    rw [Leaf.escaping_append, Leaf.escaping_append, h.escaping_eq, h'.escaping_eq]
    rfl
  nested scope hscope l hl hout := by
    rw [Scope.bind_append] at hscope
    rcases List.mem_append.mp hl with hl | hl
    · exact h.nested scope hscope.of_bind l hl hout
    · exact h'.nested _ hscope l hl hout

theorem andThen (h : Reads c first [] leaves) (h' : Reads c second names leaves') :
    Reads c (fun s => second (first s)) names (fun scope => leaves scope ++ leaves' scope) := by
  simpa only [Scope.bind_nil, List.nil_append] using h.append h'

theorem bindName (name : Option String) : Reads c (Memoizer.bindName name) name.toList fun _ => [] := by
  cases name with
  | none => exact .nil
  | some name => exact .bind [name] fun _ l hl => by cases hl

/-- A function is left with what was bound outside it. -/
theorem function (h : Reads c first names leaves) (h' : Reads c second names' leaves') :
    Reads c (fun s => s.restore (second (first s))) []
      (fun scope => leaves (scope.enter names names') ++ leaves' (scope.enterBody names names')) where
  bound_eq s := by simp [Scan.restore, h'.bound_eq, h.bound_eq]
  found_eq s := by
    rw [Leaf.escaping_append, h.escaping_eq, h'.escaping_eq, List.foldl_append]
    change (second (first s)).found = _
    rw [h'.found_eq, h.found_eq, h.bound_eq]
    rfl
  unreadable_eq s scope := by
    change (second (first s)).unreadable = _
    rw [h'.unreadable_eq _ (scope.enterBody names names'), h.unreadable_eq s (scope.enter names names'), List.any_append,
      Bool.or_assoc]
  escaping_eq scope := by
    rw [Leaf.escaping_append, Leaf.escaping_append, h.escaping_eq, h.escaping_eq (Scope.enter ..), h'.escaping_eq,
      h'.escaping_eq (Scope.enterBody ..)]
    rfl
  nested scope hscope l hl hout := by
    rw [Scope.bind_nil] at hscope
    rcases List.mem_append.mp hl with hl | hl
    · exact h.nested _ (hscope.enter names names') l hl hout
    · exact h'.nested _ (hscope.enterBody names names') l hl hout

end Reads

mutual

theorem Expr.reads_scan (c : Config) : ∀ e : Expr, Reads c (e.scan c) [] (e.leaves ·)
  | .literal _ => .nil
  | .verbatim _ => .markUnreadable
  | .ident name => .reference name
  | .member object (.name _) => (object.reads_scan c).andThen .nil
  | .member object (.computed index) => (object.reads_scan c).andThen (index.reads_scan c)
  | .optionalMember object (.name _) => (object.reads_scan c).andThen .nil
  | .optionalMember object (.computed index) => (object.reads_scan c).andThen (index.reads_scan c)
  | .call callee args => (callee.reads_scan c).andThen (Expr.reads_scanAll c args)
  | .optionalCall callee args => (callee.reads_scan c).andThen (Expr.reads_scanAll c args)
  | .new callee args => (callee.reads_scan c).andThen (Expr.reads_scanAll c args)
  | .template _ exprs => Expr.reads_scanAll c exprs
  | .object members => ObjectMember.reads_scanAll c members
  | .array elems => Expr.reads_scanElems c elems
  | .arrow params (.expr value) _ => .function (Pattern.reads_scanParams c params) (value.reads_scan c)
  | .arrow params (.block stmts) _ => .function (Pattern.reads_scanParams c params) (Stmt.reads_scanAll c stmts)
  | .function name params body _ _ =>
    .function ((Reads.bindName name).append (Pattern.reads_scanParams c params)) (Stmt.reads_scanAll c body)
  | .unary _ operand => operand.reads_scan c
  | .spread value => value.reads_scan c
  | .binary _ lhs rhs => (lhs.reads_scan c).andThen (rhs.reads_scan c)
  | .conditional test yes no => ((test.reads_scan c).andThen (yes.reads_scan c)).andThen (no.reads_scan c)
  | .assign _ target value => (target.reads_scan c).andThen (value.reads_scan c)

theorem Expr.reads_scanAll (c : Config) : ∀ exprs : List Expr,
    Reads c (Expr.scanAll c exprs) [] (Expr.leavesAll · exprs)
  | [] => .nil
  | e :: exprs => (e.reads_scan c).andThen (Expr.reads_scanAll c exprs)

theorem Expr.reads_scanElems (c : Config) : ∀ elems : List (Option Expr),
    Reads c (Expr.scanElems c elems) [] (Expr.leavesElems · elems)
  | [] => .nil
  | none :: elems => Expr.reads_scanElems c elems
  | some e :: elems => (e.reads_scan c).andThen (Expr.reads_scanElems c elems)

theorem PropKey.reads_scan (c : Config) : ∀ key : PropKey, Reads c (key.scan c) [] (key.leaves ·)
  | .computed expr => expr.reads_scan c
  | .ident _ => .nil
  | .string _ => .nil
  | .number _ => .nil

theorem ObjectMember.reads_scanAll (c : Config) : ∀ members : List ObjectMember,
    Reads c (ObjectMember.scanAll c members) [] (ObjectMember.leavesAll · members)
  | [] => .nil
  | .property key value _ :: members =>
    ((key.reads_scan c).andThen (value.reads_scan c)).andThen (ObjectMember.reads_scanAll c members)
  | .spread value :: members => (value.reads_scan c).andThen (ObjectMember.reads_scanAll c members)
  | .verbatim _ :: members => Reads.markUnreadable.andThen (ObjectMember.reads_scanAll c members)

theorem Pattern.reads_scanDefaults (c : Config) : ∀ p : Pattern, Reads c (p.scanDefaults c) [] (p.leaves ·)
  | .ident _ => .nil
  | .array elems => Pattern.reads_scanElems c elems
  | .object props none => PatternProp.reads_scanAll c props
  | .object props (some others) => (PatternProp.reads_scanAll c props).andThen (others.reads_scanDefaults c)
  | .assign target value => (value.reads_scan c).andThen (target.reads_scanDefaults c)
  | .rest target => target.reads_scanDefaults c

theorem Pattern.reads_scanElems (c : Config) : ∀ elems : List (Option Pattern),
    Reads c (Pattern.scanElems c elems) [] (Pattern.leavesElems · elems)
  | [] => .nil
  | none :: elems => Pattern.reads_scanElems c elems
  | some p :: elems => (p.reads_scanDefaults c).andThen (Pattern.reads_scanElems c elems)

theorem PatternProp.reads_scanAll (c : Config) : ∀ props : List PatternProp,
    Reads c (PatternProp.scanAll c props) [] (PatternProp.leavesAll · props)
  | [] => .nil
  | .mk key value _ :: props =>
    ((key.reads_scan c).andThen (value.reads_scanDefaults c)).andThen (PatternProp.reads_scanAll c props)

theorem Pattern.reads_scanParams (c : Config) : ∀ params : List Pattern,
    Reads c (Pattern.scanParams c params) (Pattern.namesOf params) (Pattern.leavesParams · params)
  | [] => .nil
  | p :: params => by
      have hhead : Reads c (fun s => (p.scanDefaults c s).bind p.boundNames) p.boundNames (p.leaves ·) := by
        have hbind : Reads c (Scan.bind p.boundNames) p.boundNames fun _ => [] := .bind p.boundNames (by simp)
        simpa only [List.append_nil] using (p.reads_scanDefaults c).andThen hbind
      exact hhead.append (Pattern.reads_scanParams c params)

theorem Declarator.reads_scanAll (c : Config) : ∀ declarators : List Declarator,
    Reads c (Declarator.scanAll c declarators) (Declarator.namesOf declarators) (Declarator.leavesAll · declarators)
  | [] => .nil
  | .mk target none :: declarators =>
    (Reads.bind target.boundNames (by simp)).append (Declarator.reads_scanAll c declarators)
  | .mk target (some init) :: declarators =>
    ((init.reads_scan c).andThen (Reads.bind target.boundNames (by simp))).append
      (Declarator.reads_scanAll c declarators)

theorem Stmt.reads_scanAll (c : Config) : ∀ stmts : List Stmt,
    Reads c (Stmt.scanAll c stmts) (Stmt.namesOf stmts) (Stmt.leavesAll · stmts)
  | [] => .nil
  | .decl _ declarators _ :: stmts => (Declarator.reads_scanAll c declarators).append (Stmt.reads_scanAll c stmts)
  | .ret none _ :: stmts => Stmt.reads_scanAll c stmts
  | .ret (some value) _ :: stmts => (value.reads_scan c).andThen (Stmt.reads_scanAll c stmts)
  | .expr value _ :: stmts => (value.reads_scan c).andThen (Stmt.reads_scanAll c stmts)
  | .verbatim .. :: stmts => Reads.markUnreadable.andThen (Stmt.reads_scanAll c stmts)

end

namespace Expr

-- What is bound where is the same for every configuration.
theorem nested_leaf {e : Expr} {l : Leaf} (hl : l ∈ e.leaves {}) (hout : l.inTarget = false) : l.scope.Nested :=
  (e.reads_scan {}).nested {} ⟨List.nil_subset _, List.nil_subset _⟩ l hl hout

theorem mem_freeNames_iff {e : Expr} {c : Config} {name : String} : name ∈ e.freeNames c ↔ c.isIgnored name = false ∧
    ∃ l ∈ e.leaves {}, l.inTarget = false ∧ l.name = some name ∧ name ∉ l.scope.bound := by
  rw [freeNames, (e.reads_scan c).found_eq, mem_foldl_appendNew, Leaf.mem_escaping_iff]
  exact or_iff_right (List.not_mem_nil)

end Expr

end Memoizer
