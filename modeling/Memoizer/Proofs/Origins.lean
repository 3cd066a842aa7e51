import Memoizer.Proofs.Reachability
import Memoizer.Proofs.UpToSpelling

namespace Memoizer

open Lower

namespace Body

variable {b : Body} {lo mid hi : InstId}

/-- The latest binding of a name in front of `n`. -/
def latest (b : Body) (n : InstId) (name : String) : Option InstId := resolve { b with insts := b.insts.take n } name

/-- How a name is read back: by the first name of its binding. -/
def spelling (b : Body) (binding : String → Option InstId) (name : String) : String :=
  match binding name with
  | some d => (b.dependencyNames d).headD name
  | none => name

theorem resolve_concat (name : String) (insts : List Inst) (inst : Inst) (x : String) :
    resolve ⟨name, insts ++ [inst]⟩ x =
      if inst.op.boundNames.contains x then some insts.length else resolve ⟨name, insts⟩ x := by
  simp only [resolve, Arena.entries_push, List.foldl_append]
  rfl

theorem latest_succ {n : InstId} {op : Op} (ho : b.op? n = some op) (name : String) :
    b.latest (n + 1) name = if op.boundNames.contains name then some n else b.latest n name := by
  obtain ⟨place, hi⟩ := op?_eq_some_iff.mp ho
  have hlen : (b.insts.take n).length = n := List.length_take_of_le (Nat.le_of_lt (lt_size_of_op? ho))
  rw [latest, List.take_add_one, hi, Option.toList_some, resolve_concat, hlen]
  rfl

theorem latest_succ_of_size_le {n : InstId} (h : b.size ≤ n) : b.latest (n + 1) = b.latest n := by
  funext name
  rw [latest, latest, List.take_of_length_le h, List.take_of_length_le (Nat.le_succ_of_le h)]

theorem latest_eq (hle : lo ≤ hi) (h : ∀ j op, lo ≤ j → j < hi → b.op? j = some op → op.boundNames = []) :
    b.latest hi = b.latest lo := by
  induction hle with
  | refl => rfl
  | @step hi hle ih =>
      rw [← ih fun j op hlo hj => h j op hlo (Nat.lt_succ_of_lt hj)]
      cases ho : b.op? hi with
      | none => exact latest_succ_of_size_le (op?_eq_none_iff.mp ho)
      | some op =>
          funext name
          rw [latest_succ ho, h hi op hle (Nat.lt_succ_self hi) ho]
          rfl

theorem latest_of_isPrefix {b' : Body} (h : b'.insts <+: b.insts) : b.latest b'.size = b'.resolve := by
  funext name
  rw [latest, size, ← List.prefix_iff_eq_take.mp h]
  rfl

theorem op?_of_latest {n d : InstId} {name : String} (h : b.latest n name = some d) :
    ∃ op, b.op? d = some op ∧ name ∈ op.boundNames := by
  obtain ⟨op, ho, hname⟩ := resolve_binds h
  exact ⟨op, op?_of_isPrefix (List.take_prefix n b.insts) ho, hname⟩

def BindsByFirst (b : Body) : Prop :=
  ∀ id op first rest, b.op? id = some op → op.boundNames = first :: rest → b.rebuildExpr id = .ident first

theorem BindsByFirst.rebuildExpr_eq (hfirst : b.BindsByFirst) {d : InstId} {op : Op} {name : String}
    {binding : String → Option InstId} (hbinding : binding name = some d) (ho : b.op? d = some op)
    (hname : name ∈ op.boundNames) : b.rebuildExpr d = .ident (b.spelling binding name) := by
  obtain ⟨first, rest, hnames⟩ := List.exists_cons_of_ne_nil (List.ne_nil_of_mem hname)
  rw [hfirst d op first rest ho hnames, spelling, hbinding]
  simp only [dependencyNames, ho, hnames, List.headD_cons]

/-- The instruction `j` computes the expression, and it reads the bindings of the names that stand in it directly. -/
structure Computes (b : Body) (j : InstId) (e : Expr) : Prop where
  eqUpTo : e.EqUpTo MemberProp.ComesBackAs (b.spelling (b.latest j)) (b.rebuildExpr j)
  reads : ∀ name d, .ident name ∈ e.operands → b.latest j name = some d → b.Reads j d

/-- The instruction `id` has the value of the expression, under the bindings that hold. -/
structure ValueOf (b : Body) (binding : String → Option InstId) (e : Expr) (id : InstId) : Prop where
  eqUpTo : e.EqUpTo MemberProp.ComesBackAs (b.spelling binding) (b.rebuildExpr id)
  bound : ∀ name d, .ident name = e → binding name = some d → d = id

structure ValuesOf (b : Body) (binding : String → Option InstId) (exprs : List Expr) (operands : List Operand) : Prop where
  eqUpTo : List.Forall₂ (Expr.EqUpTo MemberProp.ComesBackAs (b.spelling binding)) exprs
    (operands.map (Operand.rebuildWith b.rebuildExpr))
  bound : ∀ name d, .ident name ∈ exprs → binding name = some d → d ∈ Operand.ids operands

structure PropsOf (b : Body) (binding : String → Option InstId) (members : List ObjectMember)
    (props : List (String × Operand)) : Prop where
  eqUpTo : List.Forall₂ (ObjectMember.EqUpTo MemberProp.ComesBackAs (b.spelling binding)) members
    (props.map fun p => .property (.ident p.1) (p.2.rebuildWith b.rebuildExpr) false)
  bound : ∀ name d, .ident name ∈ members.filterMap ObjectMember.value? → binding name = some d → d ∈ Property.ids props

theorem ValueOf.of_eqUpTo {binding : String → Option InstId} {e : Expr} {id : InstId} (hname : e.name? = none)
    (h : e.EqUpTo MemberProp.ComesBackAs (b.spelling binding) (b.rebuildExpr id)) : b.ValueOf binding e id := by
  refine ⟨h, ?_⟩
  rintro name d rfl
  cases hname

end Body

namespace Lower

/-- A run has appended instructions that bind nothing and each compute one of the given expressions, and `p` holds under
the bindings that it found. -/
structure Traced (b : Body) (s t : Lowering) (src : Expr → Prop) (p : (String → Option InstId) → Prop) : Prop where
  size_le : s.body.size ≤ t.body.size
  plain : ∀ j op, s.body.size ≤ j → j < t.body.size → b.op? j = some op → op.boundNames = []
  holds : p (b.latest s.body.size)
  origin : ∀ j, s.body.size ≤ j → j < t.body.size → ∃ e, src e ∧ b.Computes j e

namespace Traced

variable {b : Body} {s t u : Lowering} {src src' : Expr → Prop} {p q : (String → Option InstId) → Prop}

theorem latest_eq (h : Traced b s t src p) : b.latest t.body.size = b.latest s.body.size :=
  Body.latest_eq h.size_le h.plain

theorem nil (hp : p (b.latest s.body.size)) : Traced b s s src p where
  size_le := Nat.le_refl _
  plain _ _ hle hlt := absurd hlt (Nat.not_lt.mpr hle)
  holds := hp
  origin _ hle hlt := absurd hlt (Nat.not_lt.mpr hle)

theorem imp (h : Traced b s t src p) (hpq : ∀ binding, p binding → q binding) : Traced b s t src q :=
  ⟨h.size_le, h.plain, hpq _ h.holds, h.origin⟩

theorem mono (h : Traced b s t src p) (hsrc : ∀ e, src e → src' e) : Traced b s t src' p where
  size_le := h.size_le
  plain := h.plain
  holds := h.holds
  origin j hlo hhi := by
    obtain ⟨e, he, hcomputes⟩ := h.origin j hlo hhi
    exact ⟨e, hsrc e he, hcomputes⟩

theorem append (h : Traced b s t src p) (h' : Traced b t u src q) :
    Traced b s u src fun binding => p binding ∧ q binding where
  size_le := Nat.le_trans h.size_le h'.size_le
  plain j op hlo hhi ho := by
    rcases Nat.lt_or_ge j t.body.size with hj | hj
    · exact h.plain j op hlo hj ho
    · exact h'.plain j op hj hhi ho
  holds := ⟨h.holds, h.latest_eq ▸ h'.holds⟩
  origin j hlo hhi := by
    rcases Nat.lt_or_ge j t.body.size with hj | hj
    · exact h.origin j hlo hj
    · exact h'.origin j hj hhi

theorem emit (h : Traced b s t src p) (hb : b.Backward) {op : Op} {id : InstId} (he : Emitted b t u op id)
    (hplain : op.boundNames = []) {e : Expr} (hsrc : src e)
    (heq : ∀ binding, p binding →
      e.EqUpTo MemberProp.ComesBackAs (b.spelling binding) (op.rebuildWith b.rebuildExpr))
    (hreads : ∀ binding, p binding → ∀ name d, .ident name ∈ e.operands → binding name = some d → d ∈ op.operands) :
    Traced b s u src fun binding =>
      p binding ∧ e.EqUpTo MemberProp.ComesBackAs (b.spelling binding) (b.rebuildExpr id) := by
  -- Nothing has been bound on the way, so the instruction stands under the bindings that the run started with.
  have hrebuilt := Body.rebuildExpr_eq hb he.op?_eq
  have hsize := he.size_eq
  have hcomputes : b.Computes id e := by
    have hlatest : b.latest id = b.latest s.body.size := he.id_eq ▸ h.latest_eq
    refine ⟨?_, fun name d hname hd => ⟨op, he.op?_eq, ?_⟩⟩
    · rw [hlatest, hrebuilt]
      exact heq _ h.holds
    · rw [hlatest] at hd
      exact hreads _ h.holds name d hname hd
  refine ⟨?_, fun j op' hlo hhi ho => ?_, ⟨h.holds, hrebuilt ▸ heq _ h.holds⟩, fun j hlo hhi => ?_⟩
  · rw [hsize]
    exact Nat.le_succ_of_le h.size_le
  · rw [hsize] at hhi
    rcases Nat.lt_succ_iff_lt_or_eq.mp hhi with hj | rfl
    · exact h.plain j op' hlo hj ho
    · rw [← he.id_eq, he.op?_eq] at ho
      cases ho
      exact hplain
  · rw [hsize] at hhi
    rcases Nat.lt_succ_iff_lt_or_eq.mp hhi with hj | rfl
    · exact h.origin j hlo hj
    · exact ⟨e, hsrc, he.id_eq ▸ hcomputes⟩

theorem of_emitted (hb : b.Backward) {c : Constant} {id : InstId} (he : Emitted b s t (.constant c) id) {e : Expr}
    (hc : c.rebuild = e) (hwhole : e.isWhole = true) (hname : e.name? = none) :
    Traced b s t e.Contains fun binding => b.ValueOf binding e id := by
  have hnil : Traced b s s e.Contains fun _ => True := .nil trivial
  have heq (binding : String → Option InstId) : e.EqUpTo MemberProp.ComesBackAs (b.spelling binding) c.rebuild := by
    rw [hc]
    exact .whole hwhole hname
  refine (hnil.emit hb he rfl .refl (fun binding _ => heq binding) ?_).imp fun _ h => .of_eqUpTo hname h.2
  rw [Expr.operands_of_isWhole hwhole]
  rintro _ _ _ _ ⟨⟩

end Traced

def InsideOf (exprs : List Expr) (part : Expr) : Prop := ∃ e ∈ exprs, e.Contains part

theorem contains_of_insideOf {e part : Expr} (h : InsideOf e.operands part) : e.Contains part := by
  obtain ⟨operand, hoperand, hpart⟩ := h
  exact .head hoperand hpart

theorem traced_lowerIdent (name : String) : Builds (lowerIdent name) fun b s t id =>
    b.BindsByFirst → Traced b s t (Expr.ident name).Contains fun binding => b.ValueOf binding (.ident name) id := by
  intro s id t h
  have hget : (get : Lower Lowering) s = .ok s s := rfl
  rw [lowerIdent, bind_ok hget] at h
  cases hr : s.body.resolve name with
  | none =>
      rw [hr] at h
      obtain ⟨hpre, hpost⟩ := builds_emit _ s id t h
      refine ⟨hpre, fun b hb htb _ => ?_⟩
      have hnone : b.latest s.body.size name = none := by rw [Body.latest_of_isPrefix (hpre.trans htb), hr]
      have hnil : Traced b s s (Expr.ident name).Contains fun binding => binding name = none := .nil hnone
      refine (hnil.emit hb (hpost b hb htb) rfl (e := .ident name) .refl ?_ ?_).imp ?_
      · intro binding hbinding
        have hspelling : b.spelling binding name = name := by rw [Body.spelling, hbinding]
        have hident : Expr.EqUpTo MemberProp.ComesBackAs (b.spelling binding) (.ident name)
          (.ident (b.spelling binding name)) := .ident name
        rwa [hspelling] at hident
      · rintro _ _ _ _ ⟨⟩
      · rintro binding ⟨hbinding, heq⟩
        refine ⟨heq, ?_⟩
        rintro _ d ⟨⟩ hd
        rw [hbinding] at hd
        cases hd
  | some k =>
      rw [hr] at h
      cases h
      refine ⟨List.prefix_rfl, fun b _ htb hfirst => ?_⟩
      obtain ⟨op, ho, hname⟩ := Body.resolve_binds hr
      have hbinding : b.latest s.body.size name = some id := by rw [Body.latest_of_isPrefix htb, hr]
      refine .nil ⟨?_, ?_⟩
      · rw [hfirst.rebuildExpr_eq hbinding (Body.op?_of_isPrefix htb ho) hname]
        exact .ident name
      · rintro _ d ⟨⟩ hd
        exact Option.some.inj (hd.symm.trans hbinding)

end Lower

namespace Body

variable {b : Body} {binding : String → Option InstId}

theorem ValuesOf.cons_literal {exprs : List Expr} {operands : List Operand} (value : Literal)
    (h : b.ValuesOf binding exprs operands) : b.ValuesOf binding (.literal value :: exprs) (.literal value :: operands) where
  eqUpTo := .cons (.whole rfl rfl) h.eqUpTo
  bound name d hname hd := by
    rcases List.mem_cons.mp hname with hfirst | hrest
    · cases hfirst
    · exact h.bound name d hrest hd

theorem ValuesOf.cons {e : Expr} {exprs : List Expr} {id : InstId} {operands : List Operand} (he : b.ValueOf binding e id)
    (h : b.ValuesOf binding exprs operands) : b.ValuesOf binding (e :: exprs) (.value id :: operands) where
  eqUpTo := .cons he.eqUpTo h.eqUpTo
  bound name d hname hd := by
    rcases List.mem_cons.mp hname with hfirst | hrest
    · exact List.mem_cons.mpr (.inl (he.bound name d hfirst hd))
    · exact List.mem_cons.mpr (.inr (h.bound name d hrest hd))

theorem PropsOf.cons_literal {members : List ObjectMember} {props : List (String × Operand)} (key : String)
    (value : Literal) (shorthand : Bool) (h : b.PropsOf binding members props) :
    b.PropsOf binding (.property (.ident key) (.literal value) shorthand :: members) ((key, .literal value) :: props) where
  eqUpTo := .cons (.property (.ident key) (.whole rfl rfl) shorthand false) h.eqUpTo
  bound name d hname hd := by
    rcases List.mem_cons.mp hname with hfirst | hrest
    · cases hfirst
    · exact h.bound name d hrest hd

theorem PropsOf.cons {e : Expr} {members : List ObjectMember} {id : InstId} {props : List (String × Operand)}
    (key : String) (shorthand : Bool) (he : b.ValueOf binding e id) (h : b.PropsOf binding members props) :
    b.PropsOf binding (.property (.ident key) e shorthand :: members) ((key, .value id) :: props) where
  eqUpTo := .cons (.property (.ident key) he.eqUpTo shorthand false) h.eqUpTo
  bound name d hname hd := by
    rcases List.mem_cons.mp hname with hfirst | hrest
    · exact List.mem_cons.mpr (.inl (he.bound name d hfirst hd))
    · exact List.mem_cons.mpr (.inr (h.bound name d hrest hd))

theorem mem_operands_call {callee : Expr} {exprs : List Expr} {receiver : InstId} {args : List Operand}
    (hcallee : b.ValueOf binding callee receiver) (hargs : b.ValuesOf binding exprs args) {name : String} {d : InstId}
    (hname : .ident name ∈ callee :: exprs) (hd : binding name = some d) : d ∈ receiver :: Operand.ids args := by
  rcases List.mem_cons.mp hname with hfirst | hrest
  · exact List.mem_cons.mpr (.inl (hcallee.bound name d hfirst hd))
  · exact List.mem_cons.mpr (.inr (hargs.bound name d hrest hd))

end Body

namespace Lower

variable {b : Body} {s t u : Lowering} {p : (String → Option InstId) → Prop}

theorem Traced.cons {e : Expr} {exprs : List Expr} {q : (String → Option InstId) → Prop}
    (h : Traced b s t e.Contains p) (h' : Traced b t u (InsideOf exprs) q) :
    Traced b s u (InsideOf (e :: exprs)) fun binding => p binding ∧ q binding := by
  refine (h.mono fun part hpart => ?_).append (h'.mono fun part hpart => ?_)
  · exact ⟨e, List.mem_cons_self, hpart⟩
  · obtain ⟨e', he', hpart⟩ := hpart
    exact ⟨e', List.mem_cons_of_mem e he', hpart⟩

theorem Traced.compound (hb : b.Backward) {e : Expr} {exprs : List Expr} (h : Traced b s t (InsideOf exprs) p) {op : Op}
    {id : InstId} (he : Emitted b t u op id) (hplain : op.boundNames = []) (hname : e.name? = none)
    (hoperands : e.operands = exprs)
    (heq : ∀ binding, p binding → e.EqUpTo MemberProp.ComesBackAs (b.spelling binding) (op.rebuildWith b.rebuildExpr))
    (hreads : ∀ binding, p binding → ∀ name d, .ident name ∈ exprs → binding name = some d → d ∈ op.operands) :
    Traced b s u e.Contains fun binding => b.ValueOf binding e id := by
  subst hoperands
  have hinside : Traced b s t e.Contains p := h.mono fun part => contains_of_insideOf
  exact (hinside.emit hb he hplain .refl heq hreads).imp fun binding hvalue => .of_eqUpTo hname hvalue.2

end Lower

theorem Expr.traced_lower (e : Expr) : Builds e.lower fun b s t id =>
    b.BindsByFirst → Traced b s t e.Contains fun binding => b.ValueOf binding e id := by
  refine Expr.lower_induction
    (P := fun e m => Builds m fun b s t id =>
      b.BindsByFirst → Traced b s t e.Contains fun binding => b.ValueOf binding e id)
    (Q := fun exprs m => Builds m fun b s t operands =>
      b.BindsByFirst → Traced b s t (InsideOf exprs) fun binding => b.ValuesOf binding exprs operands)
    (R := fun members m => Builds m fun b s t props => members.all ObjectMember.hasIdentKey = true →
      b.BindsByFirst → Traced b s t (InsideOf (members.filterMap ObjectMember.value?)) fun binding =>
        b.PropsOf binding members props)
    ?literal ?ident ?function ?kept ?read ?method ?call ?object ?nil ?lit ?cons ?pnil ?plit ?pcons ?pskip e
  case literal =>
    intro value
    exact (builds_emit _).mono fun b hb s t id he _ => .of_emitted hb he rfl rfl rfl
  case ident => exact traced_lowerIdent
  case function =>
    intro e hwhole hname _
    exact (builds_emit _).mono fun b hb s t id he _ => .of_emitted hb he rfl hwhole hname
  case kept =>
    intro kind e hwhole hname _
    exact (builds_unsupportedExpr kind e).mono fun b hb s t id he _ => .of_emitted hb he rfl hwhole hname
  case read =>
    intro object property p hp ho
    refine ho.bind (fun id => builds_emit (.read id p)) fun b hb s t u id id' hf he hfirst => ?_
    have hnone : Traced b t t (InsideOf []) fun _ => True := .nil trivial
    refine ((hf hfirst).cons hnone).compound hb he rfl rfl (Expr.operands_member hp) ?_ ?_
    · rintro binding ⟨hvalue, _⟩
      obtain ⟨property', haccess, hkey⟩ := MemberProp.comesBackAs_accessOf hp (b.rebuildExpr id)
      rw [Op.rebuildWith, haccess]
      exact .member hvalue.eqUpTo hkey
    · rintro binding ⟨hvalue, _⟩ name d hname hd
      rw [List.mem_singleton] at hname
      exact List.mem_singleton.mpr (hvalue.bound name d hname hd)
  case method =>
    intro object property args p hp ho ha
    refine ho.bind₂ ha (fun receiver operands => builds_emit (.call receiver (some p) operands))
      fun b hb s t u v receiver operands id hf hg he hfirst => ?_
    refine ((hf hfirst).cons (hg hfirst)).compound hb he rfl rfl (Expr.operands_method hp args) ?_ ?_
    · rintro binding ⟨hvalue, hargs⟩
      obtain ⟨property', haccess, hkey⟩ := MemberProp.comesBackAs_accessOf hp (b.rebuildExpr receiver)
      rw [Op.rebuildWith, haccess]
      exact .call (.member hvalue.eqUpTo hkey) hargs.eqUpTo
    · rintro binding ⟨hvalue, hargs⟩ name d hname hd
      exact Body.mem_operands_call hvalue hargs hname hd
  case call =>
    intro callee args hplain hc ha
    refine hc.bind₂ ha (fun receiver operands => builds_emit (.call receiver none operands))
      fun b hb s t u v receiver operands id hf hg he hfirst => ?_
    refine ((hf hfirst).cons (hg hfirst)).compound hb he rfl rfl (Expr.operands_call hplain args) ?_ ?_
    · rintro binding ⟨hvalue, hargs⟩
      exact .call hvalue.eqUpTo hargs.eqUpTo
    · rintro binding ⟨hvalue, hargs⟩ name d hname hd
      exact Body.mem_operands_call hvalue hargs hname hd
  case object =>
    intro members hall hm
    refine hm.bind (fun props => builds_emit (.object props)) fun b hb s t u props id hf he hfirst => ?_
    refine (hf hall hfirst).compound hb he rfl rfl (Expr.operands_object hall) ?_ ?_
    · intro binding hprops
      exact .object hprops.eqUpTo
    · intro binding hprops name d hname hd
      exact hprops.bound name d hname hd
  case nil => exact .pure fun b s _ => .nil ⟨.nil, by rintro _ _ ⟨⟩⟩
  case lit =>
    intro value exprs hes
    refine hes.bind (w := fun operands _ s t c => t = s ∧ c = .literal value :: operands)
      (fun operands => .pure fun _ _ => ⟨rfl, rfl⟩) ?_
    rintro b _ s t _ operands _ hf ⟨rfl, rfl⟩ hfirst
    refine ((hf hfirst).mono ?_).imp fun binding h => h.cons_literal value
    rintro part ⟨e', he', hpart⟩
    exact ⟨e', List.mem_cons_of_mem _ he', hpart⟩
  case cons =>
    intro e exprs _ he hes
    refine he.bind₂ hes (w := fun id operands _ s t c => t = s ∧ c = .value id :: operands)
      (fun id operands => .pure fun _ _ => ⟨rfl, rfl⟩) ?_
    rintro b _ s t u _ id operands _ hf hg ⟨rfl, rfl⟩ hfirst
    exact ((hf hfirst).cons (hg hfirst)).imp fun binding h => .cons h.1 h.2
  case pnil => exact .pure fun b s _ _ => .nil ⟨.nil, by rintro _ _ ⟨⟩⟩
  case plit =>
    intro key value shorthand members hm
    refine hm.bind (w := fun props _ s t c => t = s ∧ c = (key, .literal value) :: props)
      (fun props => .pure fun _ _ => ⟨rfl, rfl⟩) ?_
    rintro b _ s t _ props _ hf ⟨rfl, rfl⟩ hall hfirst
    refine ((hf hall hfirst).mono ?_).imp fun binding h => h.cons_literal key value shorthand
    rintro part ⟨e', he', hpart⟩
    exact ⟨e', List.mem_cons_of_mem _ he', hpart⟩
  case pcons =>
    intro key value shorthand members _ he hm
    refine he.bind₂ hm (w := fun id props _ s t c => t = s ∧ c = (key, .value id) :: props)
      (fun id props => .pure fun _ _ => ⟨rfl, rfl⟩) ?_
    rintro b _ s t u _ id props _ hf hg ⟨rfl, rfl⟩ hall hfirst
    exact ((hf hfirst).cons (hg hall hfirst)).imp fun binding h => .cons key shorthand h.1 h.2
  case pskip =>
    -- An object with such a member is kept whole.
    intro m members hm hms
    refine hms.mono fun b _ s t props hf hall => ?_
    rw [List.all_cons, hm, Bool.false_and] at hall
    cases hall

def Stmt.exprs : Stmt → List Expr
  | .decl _ declarators _ => declarators.flatMap (·.init.toList)
  | .ret value _ => value.toList
  | .expr value _ => [value]
  | .verbatim .. => []

/-- Each object and each call from `lo` to `hi` computes one of the expressions or a part of one. -/
def Body.Accounts (b : Body) (lo hi : InstId) (exprs : List Expr) : Prop :=
  ∀ j op, lo ≤ j → j < hi → b.op? j = some op → op.IsFresh → ∃ e ∈ exprs, ∃ part, e.Contains part ∧ b.Computes j part

namespace Body.Accounts

variable {b : Body} {lo mid hi : InstId} {exprs exprs' : List Expr}

theorem refl (b : Body) (lo : InstId) (exprs : List Expr) : b.Accounts lo lo exprs :=
  fun _ _ hle hlt => absurd hlt (Nat.not_lt.mpr hle)

theorem mono (h : b.Accounts lo hi exprs) (hsub : exprs ⊆ exprs') : b.Accounts lo hi exprs' := by
  intro j op hlo hhi ho hfresh
  obtain ⟨e, he, part, hpart, hcomputes⟩ := h j op hlo hhi ho hfresh
  exact ⟨e, hsub he, part, hpart, hcomputes⟩

theorem append (h : b.Accounts lo mid exprs) (h' : b.Accounts mid hi exprs') : b.Accounts lo hi (exprs ++ exprs') := by
  intro j op hlo hhi ho hfresh
  rcases Nat.lt_or_ge j mid with hj | hj
  · exact h.mono (List.subset_append_left _ _) j op hlo hj ho hfresh
  · exact h'.mono (List.subset_append_right _ _) j op hj hhi ho hfresh

theorem of_traced {s t : Lowering} {e : Expr} {p : (String → Option InstId) → Prop} (h : Traced b s t e.Contains p) :
    b.Accounts s.body.size t.body.size [e] := by
  intro j op hlo hhi _ _
  obtain ⟨part, hpart, hcomputes⟩ := h.origin j hlo hhi
  exact ⟨e, List.mem_singleton_self e, part, hpart, hcomputes⟩

theorem emitted {s t : Lowering} {op : Op} {id : InstId} (h : b.Accounts lo s.body.size exprs) (he : Emitted b s t op id)
    (hop : ¬ op.IsFresh) : b.Accounts lo t.body.size exprs := by
  intro j op' hlo hhi ho hfresh
  rw [he.size_eq] at hhi
  rcases Nat.lt_succ_iff_lt_or_eq.mp hhi with hj | rfl
  · exact h j op' hlo hj ho hfresh
  · rw [← he.id_eq, he.op?_eq] at ho
    cases ho
    exact absurd hfresh hop

end Body.Accounts

theorem Op.not_isFresh {op : Op} (hcall : op.isCall = false) (hobject : op.isObject = false) : ¬ op.IsFresh := by
  rintro (⟨props, rfl⟩ | ⟨receiver, property, args, rfl⟩)
  · cases hobject
  · cases hcall

namespace Lower

theorem builds_emitted_accounts {m : Lower InstId} {op : Op} (hop : ¬ op.IsFresh)
    (hm : Builds m fun b s t id => Emitted b s t op id) :
    Builds (do let _ ← m) fun b s t _ => b.BindsByFirst → b.Accounts s.body.size t.body.size [] := by
  refine hm.discard.mono ?_
  rintro b _ s t _ ⟨id, he⟩ _
  exact (Body.Accounts.refl b _ []).emitted he hop

theorem builds_value_accounts (e : Expr) {last : InstId → Lower InstId} {op : InstId → Op}
    (hop : ∀ value, ¬ (op value).IsFresh) (hlast : ∀ value, Builds (last value) fun b s t id => Emitted b s t (op value) id) :
    Builds (do
      let value ← e.lower
      let _ ← last value) fun b s t _ => b.BindsByFirst → b.Accounts s.body.size t.body.size [e] := by
  refine e.traced_lower.bind (fun value => (hlast value).discard) ?_
  rintro b _ s t u value _ htraced ⟨id, he⟩ hfirst
  exact (Body.Accounts.of_traced (htraced hfirst)).emitted he (hop value)

end Lower

namespace Declarator

variable {kind : DeclKind} {place : Option Place}

theorem builds_accounts (d : Declarator) : Builds (d.lower kind place) fun b s t _ =>
    b.BindsByFirst → b.Accounts s.body.size t.body.size d.init.toList := by
  obtain ⟨target, init⟩ := d
  cases init with
  | none =>
      intro s _ t hrun
      cases hrun
  | some init =>
      cases target with
      | ident | array => exact builds_value_accounts init (fun _ => Op.not_isFresh rfl rfl) fun value => builds_emit _
      | object | assign | rest =>
          exact builds_value_accounts init (fun _ => Op.not_isFresh rfl rfl) fun _ => builds_unsupported _ _ _

theorem builds_accounts_all (ds : List Declarator) : Builds (lowerAll kind place ds) fun b s t _ =>
    b.BindsByFirst → b.Accounts s.body.size t.body.size (ds.flatMap (·.init.toList)) := by
  induction ds with
  | nil => exact .pure fun b s _ => .refl b s.body.size []
  | cons d ds ih =>
      refine d.builds_accounts.bind (fun _ => ih) ?_
      intro b _ s t u _ _ hd hds hfirst
      exact (hd hfirst).append (hds hfirst)

end Declarator

namespace Stmt

theorem builds_accounts (stmt : Stmt) : Builds stmt.lower fun b s t _ =>
    b.BindsByFirst → b.Accounts s.body.size t.body.size stmt.exprs := by
  cases stmt with
  | decl kind declarators place => exact (Declarator.builds_accounts_all declarators).stamped place
  | ret value place =>
      cases value with
      | none => exact (builds_emitted_accounts (Op.not_isFresh rfl rfl) (builds_emit _)).stamped place
      | some value =>
          exact (builds_value_accounts value (fun _ => Op.not_isFresh rfl rfl) fun _ => builds_emit _).stamped place
  | expr value place =>
      have hvalue : Builds (do let _ ← value.lower) fun b s t _ =>
          b.BindsByFirst → b.Accounts s.body.size t.body.size [value] := by
        refine value.traced_lower.discard.mono ?_
        rintro b _ s t _ ⟨id, htraced⟩ hfirst
        exact .of_traced (htraced hfirst)
      exact hvalue.stamped place
  | verbatim kind text place =>
      exact (builds_emitted_accounts (Op.not_isFresh rfl rfl) (builds_unsupported _ _ _)).stamped place

theorem builds_accounts_all (stmts : List Stmt) : Builds (lowerAll stmts) fun b s t _ =>
    b.BindsByFirst → b.Accounts s.body.size t.body.size (stmts.flatMap exprs) := by
  induction stmts with
  | nil => exact .pure fun b s _ => .refl b s.body.size []
  | cons stmt stmts ih =>
      refine stmt.builds_accounts.bind (fun _ => ih) ?_
      intro b _ s t u _ _ hstmt hstmts hfirst
      exact (hstmt hfirst).append (hstmts hfirst)

end Stmt

namespace Function

variable {f : Function} {log log' : Log} {body : Body}

theorem emitted_bindsByFirst (f : Function) (log : Log) : (f.emitted log).BindsByFirst := by
  intro id op first rest ho hnames
  rw [Body.rebuildExpr_eq (f.emitted_backward log) ho]
  cases loweredFrom_of_op? ho with
  | plain h =>
      rw [h] at hnames
      cases hnames
  | param name =>
      cases hnames
      rfl
  | @declared kind _ _ target _ _ _ htarget value =>
      have hbound : target.boundNames = first :: rest := hnames
      cases target with
      | ident name =>
          cases hbound
          rfl
      | array elems =>
          rw [Op.ofDeclaration, Op.rebuildWith, Pattern.reference, hbound]
          rintro _ ⟨⟩
      | object | assign | rest => cases htarget

/-- Every object and every call of a lowered function comes from the statements. -/
theorem emitted_accounts (h : f.lower log = .ok body log') :
    body.Accounts 0 body.size (f.body.flatMap Stmt.exprs) := by
  obtain ⟨rfl, t, u, hparams, hrun, hu⟩ := lower_stages h
  obtain ⟨hpre, hpost⟩ := Stmt.builds_accounts_all f.body t () u hrun
  have hstmts := hpost _ (f.emitted_backward log) (hu ▸ List.prefix_rfl) (f.emitted_bindsByFirst log)
  rw [hu] at hpre hstmts
  -- In front of the statements there are only parameters.
  have hfront : (f.emitted log).Accounts 0 t.body.size [] := by
    intro j op _ hj ho hfresh
    obtain ⟨op', ho'⟩ := Body.exists_op? hj
    obtain ⟨name, rfl⟩ := exists_param_of_op? hparams ho'
    obtain rfl := Option.some.inj ((Body.op?_of_isPrefix hpre ho').symm.trans ho)
    exact absurd hfresh (Op.not_isFresh rfl rfl)
  exact hfront.append hstmts

end Function

end Memoizer
