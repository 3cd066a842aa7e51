import Mathlib
import Memoizer.Proofs.FreeNames
import Memoizer.Proofs.SpanMemos

namespace Memoizer

/-- An expression that a scan comes to, and the names that are bound there. -/
structure Part where
  bound : List String
  expr : Expr

def Part.found (c : Config) (p : Part) : List String := (p.expr.scan c { bound := p.bound }).found

def MemberProp.scanned : MemberProp → List Expr
  | .name _ => []
  | .computed index => [index]

def PropKey.scanned : PropKey → List Expr
  | .computed expr => [expr]
  | .ident _ => []
  | .string _ => []
  | .number _ => []

def ObjectMember.scanned : ObjectMember → List Expr
  | .property key value _ => key.scanned ++ [value]
  | .spread value => [value]
  | .verbatim _ => []

mutual

def Pattern.scanned : Pattern → List Expr
  | .ident _ => []
  | .array elems => Pattern.scannedElems elems
  | .object props none => PatternProp.scannedAll props
  | .object props (some others) => PatternProp.scannedAll props ++ others.scanned
  | .assign target value => value :: target.scanned
  | .rest target => target.scanned

def Pattern.scannedElems : List (Option Pattern) → List Expr
  | [] => []
  | none :: elems => Pattern.scannedElems elems
  | some p :: elems => p.scanned ++ Pattern.scannedElems elems

def PatternProp.scannedAll : List PatternProp → List Expr
  | [] => []
  | .mk key value _ :: props => key.scanned ++ value.scanned ++ PatternProp.scannedAll props

end

def Part.all (bound : List String) (exprs : List Expr) : List Part := exprs.map (Part.mk bound)

def Pattern.paramParts (bound : List String) : List Pattern → List Part
  | [] => []
  | p :: params => Part.all bound p.scanned ++ Pattern.paramParts (bound ++ p.boundNames) params

def Declarator.parts (bound : List String) : List Declarator → List Part
  | [] => []
  | .mk target init :: declarators =>
    Part.all bound init.toList ++ Declarator.parts (bound ++ target.boundNames) declarators

def Stmt.parts (bound : List String) : List Stmt → List Part
  | [] => []
  | .decl _ declarators _ :: stmts =>
    Declarator.parts bound declarators ++ Stmt.parts (bound ++ Declarator.namesOf declarators) stmts
  | .ret value _ :: stmts => Part.all bound value.toList ++ Stmt.parts bound stmts
  | .expr value _ :: stmts => ⟨bound, value⟩ :: Stmt.parts bound stmts
  | .verbatim .. :: stmts => Stmt.parts bound stmts

def ArrowBody.parts (bound : List String) : ArrowBody → List Part
  | .expr value => [⟨bound, value⟩]
  | .block stmts => Stmt.parts bound stmts

/-- The parts of an expression in the order of the scan. Inside a function more names are bound from one to the next. -/
def Expr.parts (bound : List String) : Expr → List Part
  | .literal _ => []
  | .verbatim _ => []
  | .ident _ => []
  | .member base property => Part.all bound (base :: property.scanned)
  | .optionalMember base property => Part.all bound (base :: property.scanned)
  | .call callee args => Part.all bound (callee :: args)
  | .optionalCall callee args => Part.all bound (callee :: args)
  | .new callee args => Part.all bound (callee :: args)
  | .template _ exprs => Part.all bound exprs
  | .object members => Part.all bound (members.flatMap ObjectMember.scanned)
  | .array elems => Part.all bound (elems.flatMap Option.toList)
  | .arrow params body _ => Pattern.paramParts bound params ++ body.parts (bound ++ Pattern.namesOf params)
  | .function name params body _ _ =>
    Pattern.paramParts (bound ++ name.toList) params ++
      Stmt.parts (bound ++ (name.toList ++ Pattern.namesOf params)) body
  | .unary _ operand => [⟨bound, operand⟩]
  | .spread value => [⟨bound, value⟩]
  | .binary _ lhs rhs => Part.all bound [lhs, rhs]
  | .conditional test yes no => Part.all bound [test, yes, no]
  | .assign _ target value => Part.all bound [target, value]

def Expr.ownName (c : Config) (bound : List String) : Expr → List String
  | .ident name => if bound.contains name || c.isIgnored name then [] else [name]
  | _ => []

section Names

theorem foldl_appendNew (names seen : List String) :
    names.foldl appendNew seen = seen ++ (firstOccurrences names).filter (!seen.contains ·) := by
  induction names using List.reverseRecOn with
  | nil => simp [firstOccurrences]
  | append_singleton names name ih =>
      rw [List.foldl_concat, ih, firstOccurrences_append, appendNew]
      by_cases hseen : name ∈ seen
      · by_cases hname : name ∈ names <;> simp [hseen, hname]
      · by_cases hname : name ∈ names <;> simp [hseen, hname, mem_firstOccurrences]

theorem firstOccurrences_self {names : List String} (h : names.Nodup) : firstOccurrences names = names := by
  induction names using List.reverseRecOn with
  | nil => rfl
  | append_singleton names name ih =>
      obtain ⟨hnames, -, hne⟩ := List.nodup_append.mp h
      have hout : name ∉ names := fun hin => hne name hin name (by simp) rfl
      rw [firstOccurrences_append, if_neg hout, ih hnames]

theorem foldl_appendNew_firstOccurrences (names seen : List String) :
    (firstOccurrences names).foldl appendNew seen = names.foldl appendNew seen := by
  rw [foldl_appendNew, foldl_appendNew, firstOccurrences_self (nodup_firstOccurrences names)]

theorem firstOccurrences_flatMap {α : Type} (own : List String) (items : List α) (f : α → List String) :
    firstOccurrences (own ++ items.flatMap fun a => firstOccurrences (f a)) =
      firstOccurrences (own ++ items.flatMap f) := by
  change List.foldl appendNew [] _ = List.foldl appendNew [] _
  rw [List.foldl_append, List.foldl_append, List.foldl_flatMap, List.foldl_flatMap]
  simp only [foldl_appendNew_firstOccurrences]

end Names

section Parts

open Leaf (escaping escaping_append)

variable (c : Config)

def Part.escaping (p : Part) : List String := Leaf.escaping c (p.expr.leaves { bound := p.bound })

theorem Part.found_eq (p : Part) : p.found c = firstOccurrences (p.escaping c) :=
  (p.expr.reads_scan c).found_eq { bound := p.bound }

theorem Part.all_append (bound : List String) (exprs exprs' : List Expr) :
    Part.all bound (exprs ++ exprs') = Part.all bound exprs ++ Part.all bound exprs' := List.map_append

theorem Part.escaping_all_cons (bound : List String) (e : Expr) (exprs : List Expr) :
    (Part.all bound (e :: exprs)).flatMap (Part.escaping c) =
      Part.escaping c ⟨bound, e⟩ ++ (Part.all bound exprs).flatMap (Part.escaping c) := rfl

theorem Part.escaping_singleton (p : Part) : [p].flatMap (Part.escaping c) = p.escaping c := List.append_nil _

theorem escaping_expr (scope : Scope) (e : Expr) :
    escaping c (e.leaves scope) = Part.escaping c ⟨scope.bound, e⟩ := (e.reads_scan c).escaping_eq scope

theorem escaping_exprs (scope : Scope) (exprs : List Expr) :
    escaping c (Expr.leavesAll scope exprs) = (Part.all scope.bound exprs).flatMap (Part.escaping c) := by
  induction exprs with
  | nil => rfl
  | cons e exprs ih => rw [Expr.leavesAll, escaping_append, escaping_expr, ih, Part.escaping_all_cons]

theorem escaping_elems (scope : Scope) (elems : List (Option Expr)) :
    escaping c (Expr.leavesElems scope elems) =
      (Part.all scope.bound (elems.flatMap Option.toList)).flatMap (Part.escaping c) := by
  induction elems with
  | nil => rfl
  | cons elem elems ih =>
      cases elem with
      | none => exact ih
      | some e =>
          rw [Expr.leavesElems, escaping_append, escaping_expr, ih]
          rfl

theorem escaping_property (scope : Scope) (property : MemberProp) :
    escaping c (property.leaves scope) = (Part.all scope.bound property.scanned).flatMap (Part.escaping c) := by
  cases property with
  | name => rfl
  | computed index => exact (escaping_expr c scope index).trans (Part.escaping_singleton c _).symm

theorem escaping_key (scope : Scope) (key : PropKey) :
    escaping c (key.leaves scope) = (Part.all scope.bound key.scanned).flatMap (Part.escaping c) := by
  cases key with
  | computed expr => exact (escaping_expr c scope expr).trans (Part.escaping_singleton c _).symm
  | ident | string | number => rfl

theorem escaping_members (scope : Scope) (members : List ObjectMember) :
    escaping c (ObjectMember.leavesAll scope members) =
      (Part.all scope.bound (members.flatMap ObjectMember.scanned)).flatMap (Part.escaping c) := by
  induction members with
  | nil => rfl
  | cons member members ih =>
      rw [List.flatMap_cons, Part.all_append, List.flatMap_append, ← ih]
      cases member with
      | property key value =>
          rw [ObjectMember.leavesAll, escaping_append, escaping_append, escaping_key, escaping_expr, ObjectMember.scanned,
            Part.all_append, List.flatMap_append, Part.escaping_all_cons]
          exact congrArg (_ ++ · ++ _) (List.append_nil _).symm
      | spread value =>
          rw [ObjectMember.leavesAll, escaping_append, escaping_expr]
          exact congrArg (· ++ _) (List.append_nil _).symm
      | verbatim => rfl

mutual

theorem Pattern.escaping_leaves (scope : Scope) : ∀ p : Pattern,
    escaping c (p.leaves scope) = (Part.all scope.bound p.scanned).flatMap (Part.escaping c)
  | .ident _ => rfl
  | .array elems => Pattern.escaping_leavesElems scope elems
  | .object props none => PatternProp.escaping_leavesAll scope props
  | .object props (some others) => by
      rw [Pattern.leaves, escaping_append, PatternProp.escaping_leavesAll, Pattern.escaping_leaves, Pattern.scanned,
        Part.all_append, List.flatMap_append]
  | .assign target value => by
      rw [Pattern.leaves, escaping_append, escaping_expr, Pattern.escaping_leaves, Pattern.scanned, Part.escaping_all_cons]
  | .rest target => Pattern.escaping_leaves scope target

theorem Pattern.escaping_leavesElems (scope : Scope) : ∀ elems : List (Option Pattern),
    escaping c (Pattern.leavesElems scope elems) =
      (Part.all scope.bound (Pattern.scannedElems elems)).flatMap (Part.escaping c)
  | [] => rfl
  | none :: elems => Pattern.escaping_leavesElems scope elems
  | some p :: elems => by
      rw [Pattern.leavesElems, escaping_append, Pattern.escaping_leaves, Pattern.escaping_leavesElems,
        Pattern.scannedElems, Part.all_append, List.flatMap_append]

theorem PatternProp.escaping_leavesAll (scope : Scope) : ∀ props : List PatternProp,
    escaping c (PatternProp.leavesAll scope props) =
      (Part.all scope.bound (PatternProp.scannedAll props)).flatMap (Part.escaping c)
  | [] => rfl
  | .mk key value _ :: props => by
      rw [PatternProp.leavesAll, escaping_append, escaping_append, escaping_key, Pattern.escaping_leaves,
        PatternProp.escaping_leavesAll, PatternProp.scannedAll, Part.all_append, Part.all_append, List.flatMap_append,
        List.flatMap_append]

end

theorem escaping_params (scope : Scope) (params : List Pattern) :
    escaping c (Pattern.leavesParams scope params) =
      (Pattern.paramParts scope.bound params).flatMap (Part.escaping c) := by
  induction params generalizing scope with
  | nil => rfl
  | cons p params ih =>
      rw [Pattern.leavesParams, escaping_append, Pattern.escaping_leaves, ih, Pattern.paramParts, List.flatMap_append]
      rfl

theorem escaping_target (scope : Scope) (target : Pattern) :
    escaping c ((target.leaves scope).map ({ · with inTarget := true })) = [] :=
  Leaf.escaping_of_inTarget (by simp)

theorem escaping_declarators (scope : Scope) (declarators : List Declarator) :
    escaping c (Declarator.leavesAll scope declarators) =
      (Declarator.parts scope.bound declarators).flatMap (Part.escaping c) := by
  induction declarators generalizing scope with
  | nil => rfl
  | cons d declarators ih =>
      obtain ⟨target, _ | init⟩ := d
      · rw [Declarator.leavesAll, escaping_append, escaping_target, ih]
        rfl
      · rw [Declarator.leavesAll, escaping_append, escaping_append, escaping_target, List.append_nil, escaping_expr, ih]
        rfl

theorem escaping_stmts (scope : Scope) (stmts : List Stmt) :
    escaping c (Stmt.leavesAll scope stmts) = (Stmt.parts scope.bound stmts).flatMap (Part.escaping c) := by
  induction stmts generalizing scope with
  | nil => rfl
  | cons stmt stmts ih =>
      cases stmt with
      | decl kind declarators =>
          rw [Stmt.leavesAll, escaping_append, escaping_declarators, ih, Stmt.parts, List.flatMap_append]
          rfl
      | ret value =>
          cases value with
          | none => exact ih scope
          | some value =>
              rw [Stmt.leavesAll, escaping_append, escaping_expr, ih]
              rfl
      | expr value =>
          rw [Stmt.leavesAll, escaping_append, escaping_expr, ih]
          rfl
      | verbatim => exact ih scope

theorem escaping_body (scope : Scope) (body : ArrowBody) :
    escaping c (body.leaves scope) = (body.parts scope.bound).flatMap (Part.escaping c) := by
  cases body with
  | expr value => exact (escaping_expr c scope value).trans (Part.escaping_singleton c _).symm
  | block stmts => exact escaping_stmts c scope stmts

/-- What escapes from an expression is its own name or what escapes from its parts. -/
theorem escaping_leaves (scope : Scope) (e : Expr) : escaping c (e.leaves scope) =
    e.ownName c scope.bound ++ (e.parts scope.bound).flatMap (Part.escaping c) := by
  cases e with
  | literal | verbatim => rfl
  | ident name => exact (Leaf.escaping_name c name scope).trans (List.append_nil _).symm
  | member base property | optionalMember base property =>
      rw [Expr.leaves, escaping_append, escaping_expr, escaping_property]
      rfl
  | call callee args | optionalCall callee args | new callee args =>
      rw [Expr.leaves, escaping_append, escaping_expr, escaping_exprs]
      rfl
  | template quasis exprs => exact escaping_exprs c scope exprs
  | object members => exact escaping_members c scope members
  | array elems => exact escaping_elems c scope elems
  | arrow params body =>
      rw [Expr.leaves, escaping_append, escaping_params, escaping_body, Expr.parts, List.flatMap_append]
      rfl
  | function name params body =>
      rw [Expr.leaves, escaping_append, escaping_params, escaping_stmts, Expr.parts, List.flatMap_append]
      rfl
  | unary op operand | spread operand => exact (escaping_expr c scope operand).trans (Part.escaping_singleton c _).symm
  | binary op lhs rhs | assign op lhs rhs =>
      rw [Expr.leaves, escaping_append, escaping_expr, escaping_expr]
      exact congrArg (_ ++ ·) (List.append_nil _).symm
  | conditional test yes no =>
      rw [Expr.leaves, escaping_append, escaping_append, escaping_expr, escaping_expr, escaping_expr]
      simp [Expr.ownName, Expr.parts, Part.all]

end Parts

namespace Expr

theorem scan_found (c : Config) (e : Expr) (s : Scan) :
    (e.scan c s).found = s.found ++ (e.scan c { bound := s.bound }).found.filter (!s.found.contains ·) := by
  have hreads := e.reads_scan c
  rw [hreads.found_eq, hreads.found_eq, foldl_appendNew]
  rfl

theorem found_eq_parts (c : Config) (e : Expr) (bound : List String) :
    (e.scan c { bound }).found = (e.ownName c bound ++ (e.parts bound).flatMap (Part.found c)).eraseDups := by
  have hfound : (e.scan c { bound }).found = firstOccurrences (Leaf.escaping c (e.leaves { bound })) :=
    (e.reads_scan c).found_eq { bound }
  have hpart : Part.found c = fun p => firstOccurrences (p.escaping c) := funext (Part.found_eq c)
  rw [hfound, escaping_leaves, ← firstOccurrences_eq_eraseDups, hpart, firstOccurrences_flatMap]

/-- From any state, a scan of an expression keeps the names bound and adds what a fresh scan finds there. So what is listed
for an expression has no repetition and nothing ignored in it, and it is what is listed for its parts, each name once. -/
theorem scan_compositional (c : Config) (e : Expr) :
    (∀ s : Scan, e.scan c s =
      { bound := s.bound
        found := s.found ++ (e.scan c { bound := s.bound }).found.filter (!s.found.contains ·)
        unreadable := s.unreadable || (e.scan c { bound := s.bound }).unreadable }) ∧
    (e.freeNames c).Nodup ∧ (∀ name ∈ e.freeNames c, c.isIgnored name = false) ∧
    ∀ bound, (e.scan c { bound }).found = (e.ownName c bound ++ (e.parts bound).flatMap (Part.found c)).eraseDups := by
  refine ⟨fun s => ?_, ?_, ?_, found_eq_parts c e⟩
  · have hreads := e.reads_scan c
    have hbound : (e.scan c s).bound = s.bound := by rw [hreads.bound_eq, List.append_nil]
    rw [hreads.unreadable_eq { bound := s.bound } {}, Bool.false_or, ← hreads.unreadable_eq s {}, ← scan_found, ← hbound]
  · rw [freeNames_eq]
    exact nodup_firstOccurrences _
  · intro name hname
    exact (mem_freeNames_iff.mp hname).1

end Expr

end Memoizer
