import Mathlib
import Memoizer.Proofs.Rejection
import Memoizer.Proofs.RoundTrip

namespace Memoizer

open Lower

/-- A form that instructions do not model: its kind, the expression unless it is a statement, and where it stands. -/
structure Placeholder where
  kind : String
  expr : Option Expr
  place : Option Place

def Placeholder.warning (name : String) (p : Placeholder) : Line :=
  ⟨.warn, "unsupported " ++ p.kind ++ " in `" ++ name ++ "`" ++ atText p.place ++ "; kept opaque"⟩

def Inst.placeholder? (inst : Inst) : Option Placeholder :=
  match inst.op with
  | .constant (.unsupported kind expr) => some ⟨kind, expr, inst.place⟩
  | _ => none

def Body.placeholders (b : Body) : List Placeholder := b.insts.filterMap Inst.placeholder?

def Expr.placeholder? (place : Option Place) (e : Expr) : Option Placeholder :=
  e.keptAs.map fun kind => ⟨kind, some e, place⟩

mutual

/-- What is kept of an expression: all of it, or what is kept of its parts. -/
def Expr.placeholders (place : Option Place) : Expr → List Placeholder
  | .member object property =>
    ((Expr.member object property).placeholder? place).elim (object.placeholders place) ([·])
  | .call callee args => callee.placeholders place ++ Expr.placeholdersAll place args
  | .object members => ((Expr.object members).placeholder? place).elim (ObjectMember.placeholdersAll place members) ([·])
  | e => (e.placeholder? place).toList

def Expr.placeholdersAll (place : Option Place) : List Expr → List Placeholder
  | [] => []
  | e :: exprs => e.placeholders place ++ Expr.placeholdersAll place exprs

def ObjectMember.placeholdersAll (place : Option Place) : List ObjectMember → List Placeholder
  | [] => []
  | .property (.ident _) value _ :: members => value.placeholders place ++ ObjectMember.placeholdersAll place members
  | _ :: members => ObjectMember.placeholdersAll place members

end

def Declarator.placeholders (place : Option Place) : Declarator → List Placeholder
  | .mk target init =>
    init.elim [] (Expr.placeholders place) ++
      match target with
      | .ident _ | .array _ => []
      | _ => [⟨"destructuring declaration", none, place⟩]

def Stmt.placeholders : Stmt → List Placeholder
  | .decl _ declarators place => declarators.flatMap (Declarator.placeholders place)
  | .ret value place => value.elim [] (Expr.placeholders place)
  | .expr value place => value.placeholders place
  | .verbatim kind _ place => [⟨kind, none, place⟩]

/-- The run kept `ps`: it has written their warnings and appended them among its instructions. -/
structure Lowering.Keeps (s t : Lowering) (ps : List Placeholder) : Prop where
  name_eq : t.body.name = s.body.name
  lines_eq : t.log.lines = s.log.lines ++ ps.map (Placeholder.warning s.body.name)
  placeholders_eq : t.body.placeholders = s.body.placeholders ++ ps

namespace Lowering.Keeps

variable {s t u : Lowering} {ps qs : List Placeholder}

theorem refl (s : Lowering) : s.Keeps s [] := ⟨rfl, by simp, by simp⟩

theorem trans (h : s.Keeps t ps) (h' : t.Keeps u qs) : s.Keeps u (ps ++ qs) where
  name_eq := h'.name_eq.trans h.name_eq
  lines_eq := by rw [h'.lines_eq, h.lines_eq, h.name_eq, List.map_append, List.append_assoc]
  placeholders_eq := by rw [h'.placeholders_eq, h.placeholders_eq, List.append_assoc]

end Lowering.Keeps

namespace Lower

variable {α β : Type} {place : Option Place} {ps qs : List Placeholder}

def Keeping (place : Option Place) (m : Lower α) (ps : List Placeholder) : Prop :=
  ∀ s a t, s.place = place → m s = .ok a t → t.place = place ∧ s.Keeps t ps

theorem Keeping.pure (a : α) : Keeping place (Pure.pure a) [] := by
  intro s _ t hs hrun
  cases hrun
  exact ⟨hs, .refl s⟩

theorem Keeping.bind {m : Lower α} {k : α → Lower β} (hm : Keeping place m ps) (hk : ∀ a, Keeping place (k a) qs) :
    Keeping place (m >>= k) (ps ++ qs) := by
  intro s c u hs hrun
  obtain ⟨a, t, hfirst, hrest⟩ := bind_eq_ok hrun
  obtain ⟨ht, hkeeps⟩ := hm s a t hs hfirst
  obtain ⟨hu, hkeeps'⟩ := hk a t c u ht hrest
  exact ⟨hu, hkeeps.trans hkeeps'⟩

theorem Keeping.andThen {m : Lower α} {k : α → Lower β} (hm : Keeping place m ps) (hk : ∀ a, Keeping place (k a) []) :
    Keeping place (m >>= k) ps := by
  have h := hm.bind hk
  rwa [List.append_nil] at h

theorem emit_eq_ok {op : Op} {s t : Lowering} {id : InstId} (h : emit op s = .ok id t) :
    t = { s with body := { s.body with insts := s.body.insts ++ [⟨op, s.place⟩] } } := by
  by_cases hall : (op.operands.all (decide <| · < s.body.size)) = true
  · simp only [emit, Builder.emit?, Body.emit?, hall, if_true, Option.map_some] at h
    cases h
    exact rfl
  · simp only [emit, Builder.emit?, Body.emit?, if_neg hall, Option.map_none] at h
    cases h

theorem placeholders_of_emit {op : Op} {s t : Lowering} {id : InstId} (h : emit op s = .ok id t) :
    t.body.placeholders = s.body.placeholders ++ (Inst.placeholder? ⟨op, s.place⟩).toList := by
  rw [emit_eq_ok h, Body.placeholders, Body.placeholders, List.filterMap_append, List.filterMap_cons,
    List.filterMap_nil]
  cases Inst.placeholder? ⟨op, s.place⟩ with
  | none => rfl
  | some p => rfl

theorem keeping_emit {op : Op} (hop : ∀ kind expr, op ≠ .constant (.unsupported kind expr)) :
    Keeping place (emit op) [] := by
  intro s id t hs hrun
  have hnone : Inst.placeholder? ⟨op, s.place⟩ = none := by
    rw [Inst.placeholder?]
    split
    next kind expr heq => exact absurd heq (hop kind expr)
    next => rfl
  have hkept := placeholders_of_emit hrun
  rw [hnone] at hkept
  have ht := emit_eq_ok hrun
  refine ⟨ht ▸ hs, ht ▸ rfl, ?_, hkept⟩
  rw [ht, List.map_nil, List.append_nil]

theorem keeping_unsupported (kind : String) (expr : Option Expr) :
    Keeping place (unsupported kind expr place) [⟨kind, expr, place⟩] := by
  intro s id t hs hrun
  obtain ⟨_, u, hget, hrest⟩ := bind_eq_ok hrun
  cases hget
  obtain ⟨_, u, hnote, hemit⟩ := bind_eq_ok hrest
  cases hnote
  have hkept := placeholders_of_emit hemit
  have ht := emit_eq_ok hemit
  subst hs
  exact ⟨ht ▸ rfl, ht ▸ rfl, ht ▸ rfl, hkept⟩

theorem keeping_unsupportedExpr (kind : String) (e : Expr) :
    Keeping place (unsupportedExpr kind e) [⟨kind, some e, place⟩] := by
  intro s id t hs hrun
  subst hs
  exact keeping_unsupported kind (some e) s id t rfl hrun

theorem keeping_lowerIdent (name : String) : Keeping place (lowerIdent name) [] := by
  intro s id t hs hrun
  have hget : (get : Lower Lowering) s = .ok s s := rfl
  rw [lowerIdent, bind_ok hget] at hrun
  cases hr : s.body.resolve name with
  | none =>
      rw [hr] at hrun
      refine keeping_emit ?_ s id t hs hrun
      intro _ _ h
      cases h
  | some k =>
      rw [hr] at hrun
      exact Keeping.pure k s id t hs hrun

end Lower

namespace Expr

variable {place : Option Place}

theorem placeholders_of_keptAs {e : Expr} {kind : String} (h : e.keptAs = some kind) :
    e.placeholders place = [⟨kind, some e, place⟩] := by
  have hp : e.placeholder? place = some ⟨kind, some e, place⟩ := by rw [placeholder?, h]; rfl
  cases e with
  | call | literal | ident | arrow | function => cases h
  | member | object => rw [placeholders, hp]; rfl
  | optionalMember | optionalCall | new | template | array | unary | binary | conditional | assign | spread | verbatim =>
      simp [placeholders, hp]

theorem placeholders_of_isWhole {e : Expr} (hwhole : e.isWhole = true) (h : e.keptAs = none) :
    e.placeholders place = [] := by
  cases e with
  | literal | ident | arrow | function => rfl
  | call => cases hwhole
  | member object property => cases hp : property.resolve <;> simp [isWhole, keptAs, hp] at hwhole h
  | object members => simp_all [isWhole, keptAs]
  | optionalMember | optionalCall | new | template | array | unary | binary | conditional | assign | spread | verbatim =>
      cases h

theorem keeping_lower (e : Expr) : Keeping place e.lower (e.placeholders place) := by
  refine Expr.lower_induction (P := fun e m => Keeping place m (e.placeholders place))
    (Q := fun exprs m => Keeping place m (placeholdersAll place exprs))
    (R := fun members m => Keeping place m (ObjectMember.placeholdersAll place members))
    ?literal ?ident ?function ?kept ?read ?method ?call ?object ?nil ?lit ?cons ?pnil ?plit ?pcons ?pskip e
  case literal =>
    intro value
    exact keeping_emit fun _ _ h => by cases h
  case ident => exact keeping_lowerIdent
  case function =>
    intro e hwhole _ hkept
    rw [placeholders_of_isWhole hwhole hkept]
    exact keeping_emit fun _ _ h => by cases h
  case kept =>
    intro kind e _ _ hkept
    rw [placeholders_of_keptAs hkept]
    exact keeping_unsupportedExpr kind e
  case read =>
    intro object property p hp ho
    have hnone : (Expr.member object property).placeholder? place = none := by rw [placeholder?, keptAs, hp]; rfl
    rw [placeholders, hnone]
    exact ho.andThen fun id => keeping_emit fun _ _ h => by cases h
  case method =>
    intro object property args p hp ho ha
    have hnone : (Expr.member object property).placeholder? place = none := by rw [placeholder?, keptAs, hp]; rfl
    rw [placeholders, placeholders, hnone]
    refine ho.bind fun receiver => ha.andThen fun operands => keeping_emit fun _ _ h => ?_
    cases h
  case call =>
    intro callee args _ hc ha
    rw [placeholders]
    refine hc.bind fun receiver => ha.andThen fun operands => keeping_emit fun _ _ h => ?_
    cases h
  case object =>
    intro members hkeys hm
    have hnone : (Expr.object members).placeholder? place = none := by rw [placeholder?, keptAs, if_pos hkeys]; rfl
    rw [placeholders, hnone]
    exact hm.andThen fun props => keeping_emit fun _ _ h => by cases h
  case nil => exact .pure []
  case lit =>
    intro value exprs hes
    rw [placeholdersAll]
    exact hes.andThen fun operands => .pure _
  case cons =>
    intro e exprs _ he hes
    rw [placeholdersAll]
    exact he.bind fun id => hes.andThen fun operands => .pure _
  case pnil => exact .pure []
  case plit =>
    intro key value shorthand members hm
    rw [ObjectMember.placeholdersAll]
    exact hm.andThen fun props => .pure _
  case pcons =>
    intro key value shorthand members _ he hm
    rw [ObjectMember.placeholdersAll]
    exact he.bind fun id => hm.andThen fun props => .pure _
  case pskip =>
    intro m members hkey hm
    have hskip : ObjectMember.placeholdersAll place (m :: members) = ObjectMember.placeholdersAll place members := by
      cases m with
      | property key value shorthand =>
          cases key with
          | ident => cases hkey
          | string | number | computed => rfl
      | spread | verbatim => rfl
    rw [hskip]
    exact hm

end Expr

theorem Declarator.keeping_lower (kind : DeclKind) (place : Option Place) (d : Declarator) :
    Keeping place (d.lower kind place) (d.placeholders place) := by
  obtain ⟨target, init⟩ := d
  cases init with
  | none =>
      intro s _ t _ hrun
      cases hrun
  | some init =>
      refine init.keeping_lower.bind fun value => ?_
      cases target with
      | ident | array =>
          refine (keeping_emit ?_).andThen fun _ => .pure _
          intro _ _ h
          cases h
      | object | assign | rest => exact (keeping_unsupported _ _).andThen fun _ => .pure _

theorem Declarator.keeping_lowerAll (kind : DeclKind) (place : Option Place) (ds : List Declarator) :
    Keeping place (lowerAll kind place ds) (ds.flatMap (placeholders place)) := by
  induction ds with
  | nil => exact .pure ()
  | cons d ds ih => exact (d.keeping_lower kind place).bind fun _ => ih

theorem Stmt.keeps_of_lower (stmt : Stmt) {s t : Lowering} (h : stmt.lower s = .ok () t) :
    s.Keeps t stmt.placeholders := by
  obtain ⟨_, u, hstamp, hrest⟩ := bind_eq_ok h
  cases hstamp
  have hret : ∀ value kind expr, Op.ret value ≠ .constant (.unsupported kind expr) := by
    intro _ _ _ heq
    cases heq
  have hkeeping : ∀ {m : Lower Unit} {ps}, Keeping stmt.place m ps → m { s with place := stmt.place } = .ok () t →
      s.Keeps t ps := by
    intro m ps hm hrun
    obtain ⟨hname, hlines, hkept⟩ := (hm _ _ _ rfl hrun).2
    exact ⟨hname, hlines, hkept⟩
  cases stmt with
  | decl kind declarators place => exact hkeeping (Declarator.keeping_lowerAll kind place declarators) hrest
  | ret value place =>
      cases value with
      | none => exact hkeeping ((keeping_emit (hret none)).andThen fun _ => .pure _) hrest
      | some value =>
          refine hkeeping (value.keeping_lower.andThen fun id => ?_) hrest
          exact (keeping_emit (hret (some id))).andThen fun _ => .pure _
  | expr value place => exact hkeeping (value.keeping_lower.andThen fun _ => .pure _) hrest
  | verbatim kind text place => exact hkeeping ((keeping_unsupported kind none).andThen fun _ => .pure _) hrest

theorem Stmt.keeps_of_lowerAll {stmts : List Stmt} {s t : Lowering} (h : Stmt.lowerAll stmts s = .ok () t) :
    s.Keeps t (stmts.flatMap Stmt.placeholders) := by
  induction stmts generalizing s with
  | nil =>
      cases h
      exact .refl _
  | cons stmt stmts ih =>
      obtain ⟨_, u, hfirst, hrest⟩ := bind_eq_ok h
      exact (stmt.keeps_of_lower hfirst).trans (ih hrest)

section Params

variable {place : Option Place}

theorem keeping_param (name : String) : Keeping place (emit (.param name)) [] := by
  apply keeping_emit
  intro _ _ h
  cases h

theorem keeping_fail (cause : Cause) : Keeping place (fail cause) [] := by
  intro s _ t _ hrun
  cases hrun

theorem keeping_lowerNames (names : List String) : Keeping place (lowerNames names) [] := by
  induction names with
  | nil => exact .pure ()
  | cons name names ih => exact (keeping_param name).bind fun _ => ih

theorem PatternProp.keeping_lowerParams (props : List PatternProp) :
    Keeping place (PatternProp.lowerParams props) [] := by
  induction props with
  | nil => exact .pure ()
  | cons prop props ih =>
      obtain ⟨key, value, shorthand⟩ := prop
      cases key with
      | ident key => exact (keeping_param _).bind fun _ => ih
      | string | number | computed => exact keeping_fail .parameterKey

theorem Pattern.keeping_lowerParam (p : Pattern) : Keeping place p.lowerParam [] := by
  fun_induction Pattern.lowerParam p with
  | case1 name => exact (keeping_param name).bind fun _ => .pure ()
  | case2 target _ ih => exact ih
  | case3 target ih => exact ih
  | case4 props => exact PatternProp.keeping_lowerParams props
  | case5 props others ih => exact (PatternProp.keeping_lowerParams props).bind fun _ => ih
  | case6 elems => exact keeping_lowerNames _

theorem Pattern.keeping_lowerParams (params : List Pattern) : Keeping place (Pattern.lowerParams params) [] := by
  induction params with
  | nil => exact .pure ()
  | cons p params ih => exact p.keeping_lowerParam.bind fun _ => ih

end Params

/-- Behind what was logged before stand a warning for each placeholder of the body, in order, and the summary; and the
placeholders are those of the source. -/
theorem Function.warnings_of_lower (f : Function) (log log' : Log) (body : Body) (h : f.lower log = .ok body log') :
    log'.lines = log.lines ++ body.placeholders.map (Placeholder.warning f.name) ++ [⟨.info, f.summaryLine body⟩] ∧
    body.placeholders = f.body.flatMap Stmt.placeholders := by
  cases hrun : f.lowerInto (f.blank log) with
  | error e v =>
      rw [lower_of_error hrun] at h
      cases h
  | ok _ v =>
      rw [lower_of_ok hrun] at h
      cases h
      have hname : v.body.name = f.name := (f.ends_lowerInto.grows hrun).name_eq
      obtain ⟨_, t, hparams, hrest⟩ := bind_eq_ok hrun
      obtain ⟨_, u, hstmts, hnote⟩ := bind_eq_ok hrest
      have hkeeps := (Pattern.keeping_lowerParams f.params _ _ _ rfl hparams).2.trans (Stmt.keeps_of_lowerAll hstmts)
      have hkept : u.body.placeholders = f.body.flatMap Stmt.placeholders := hkeeps.placeholders_eq
      have hlines : u.log.lines = log.lines ++ (f.body.flatMap Stmt.placeholders).map (Placeholder.warning f.name) :=
        hkeeps.lines_eq
      cases hnote
      refine ⟨?_, hkept⟩
      rw [hkept, ← hlines, summaryLine, ← hname]
      rfl

/-- `function F(a) { const { x } = [a]; g(a[i], { k: -a }); for (;;); }`, the last statement without a place. -/
def keptForms : Function where
  name := "F"
  params := [.ident "a"]
  body := [
    .decl .const [.mk (.object [.mk (.ident "x") (.ident "x") true] none) (some (.array [some (.ident "a")]))]
      (some ⟨"a.js", 1, 17⟩),
    .expr (.call (.ident "g") [.member (.ident "a") (.computed (.ident "i")),
      .object [.property (.ident "k") (.unary "-" (.ident "a")) false]]) (some ⟨"a.js", 1, 36⟩),
    .verbatim "for statement" "for (;;);" none]
  async := false
  generator := false
  exported := .none
  place := none

theorem warnings_of_keptForms : ∃ body log', keptForms.lower {} = .ok body log' ∧
    log'.lines = [
      ⟨.warn, "unsupported array literal in `F` at a.js:1:17; kept opaque"⟩,
      ⟨.warn, "unsupported destructuring declaration in `F` at a.js:1:17; kept opaque"⟩,
      ⟨.warn, "unsupported computed member access in `F` at a.js:1:36; kept opaque"⟩,
      ⟨.warn, "unsupported unary expression in `F` at a.js:1:36; kept opaque"⟩,
      ⟨.warn, "unsupported for statement in `F`; kept opaque"⟩,
      ⟨.info, "lowered `F`: 9 instructions"⟩] ∧
    body.placeholders.map Placeholder.expr = [some (.array [some (.ident "a")]), none,
      some (.member (.ident "a") (.computed (.ident "i"))), some (.unary "-" (.ident "a")), none] := by
  have hlower : ∃ log', keptForms.lower {} = .ok (keptForms.emitted {}) log' := ⟨_, by cbv⟩
  obtain ⟨log', hlower⟩ := hlower
  obtain ⟨hlines, hkept⟩ := Function.warnings_of_lower _ _ _ _ hlower
  refine ⟨_, _, hlower, ?_, ?_⟩
  · rw [hlines, hkept]
    cbv
  · rw [hkept]
    cbv

end Memoizer
