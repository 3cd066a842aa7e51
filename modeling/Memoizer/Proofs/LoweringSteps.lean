import Memoizer.Proofs.Lowering

namespace Memoizer

open Lower

/-- The property holds of the steps that lowering is made of, and it survives sequencing. -/
structure Lower.Closed (P : {α : Type} → Lower α → Prop) : Prop where
  pure : ∀ {α : Type} (a : α), P (Pure.pure a : Lower α)
  bind : ∀ {α β : Type} {m : Lower α} {k : α → Lower β}, P m → (∀ a, P (k a)) → P (m >>= k)
  emit : ∀ op, P (emit op)
  ident : ∀ name, P (lowerIdent name)
  unsupported : ∀ kind expr place, P (unsupported kind expr place)
  unsupportedExpr : ∀ kind e, P (unsupportedExpr kind e)
  stamp : ∀ place, P (stamp place)
  fail : ∀ cause, P (fail cause)

namespace Lower.Closed

variable {P : {α : Type} → Lower α → Prop} (h : Closed P)

include h

theorem discard {α : Type} {m : Lower α} (hm : P m) : P (do let _ ← m) := h.bind hm fun _ => h.pure ()

theorem lower (e : Expr) : P e.lower := by
  refine Expr.lower_induction (P := fun _ m => P m) (Q := fun _ m => P m) (R := fun _ m => P m)
    ?literal ?ident ?function ?kept ?read ?method ?call ?object ?nil ?lit ?cons ?pnil ?plit ?pcons ?pskip e
  case literal => exact fun value => h.emit _
  case ident => exact h.ident
  case function => exact fun e _ _ _ => h.emit _
  case kept => exact fun kind e _ _ _ => h.unsupportedExpr kind e
  case read => exact fun object property p _ ho => h.bind ho fun id => h.emit _
  case method =>
    exact fun object property args p _ ho ha => h.bind ho fun receiver => h.bind ha fun operands => h.emit _
  case call => exact fun callee args _ hc ha => h.bind hc fun receiver => h.bind ha fun operands => h.emit _
  case object => exact fun members _ hm => h.bind hm fun props => h.emit _
  case nil => exact h.pure []
  case lit => exact fun value exprs hes => h.bind hes fun operands => h.pure _
  case cons => exact fun e exprs _ he hes => h.bind he fun id => h.bind hes fun operands => h.pure _
  case pnil => exact h.pure []
  case plit => exact fun key value shorthand members hm => h.bind hm fun props => h.pure _
  case pcons => exact fun key value shorthand members _ he hm => h.bind he fun id => h.bind hm fun props => h.pure _
  case pskip => exact fun m members _ hm => hm

theorem lowerNames (names : List String) : P (lowerNames names) := by
  induction names with
  | nil => exact h.pure ()
  | cons name names ih => exact h.bind (h.emit _) fun _ => ih

theorem lowerProps (props : List PatternProp) : P (PatternProp.lowerParams props) := by
  induction props with
  | nil => exact h.pure ()
  | cons prop props ih =>
      obtain ⟨key, value, shorthand⟩ := prop
      cases key with
      | ident key => exact h.bind (h.emit _) fun _ => ih
      | string | number | computed => exact h.fail .parameterKey

theorem lowerParam (p : Pattern) : P p.lowerParam := by
  fun_induction Pattern.lowerParam p with
  | case1 name => exact h.discard (h.emit _)
  | case2 target _ ih => exact ih
  | case3 target ih => exact ih
  | case4 props => exact h.lowerProps props
  | case5 props others ih => exact h.bind (h.lowerProps props) fun _ => ih
  | case6 elems => exact h.lowerNames _

theorem lowerParams (params : List Pattern) : P (Pattern.lowerParams params) := by
  induction params with
  | nil => exact h.pure ()
  | cons p params ih => exact h.bind (h.lowerParam p) fun _ => ih

theorem lowerDeclarator (kind : DeclKind) (place : Option Place) (d : Declarator) : P (d.lower kind place) := by
  obtain ⟨target, init⟩ := d
  cases init with
  | none => exact h.fail _
  | some init =>
      refine h.bind (h.lower init) fun value => ?_
      cases target with
      | ident | array => exact h.discard (h.emit _)
      | object | assign | rest => exact h.discard (h.unsupported _ _ _)

theorem lowerDeclarators (kind : DeclKind) (place : Option Place) (ds : List Declarator) :
    P (Declarator.lowerAll kind place ds) := by
  induction ds with
  | nil => exact h.pure ()
  | cons d ds ih => exact h.bind (h.lowerDeclarator kind place d) fun _ => ih

theorem lowerStmt (s : Stmt) : P s.lower := by
  refine h.bind (h.stamp s.place) fun _ => ?_
  cases s with
  | decl kind declarators place => exact h.lowerDeclarators kind place declarators
  | ret value place =>
      cases value with
      | none => exact h.discard (h.emit _)
      | some value => exact h.bind (h.lower value) fun id => h.discard (h.emit _)
  | expr value place => exact h.discard (h.lower value)
  | verbatim kind text place => exact h.discard (h.unsupported _ _ _)

theorem lowerStmts (stmts : List Stmt) : P (Stmt.lowerAll stmts) := by
  induction stmts with
  | nil => exact h.pure ()
  | cons s stmts ih => exact h.bind (h.lowerStmt s) fun _ => ih

end Lower.Closed

end Memoizer
