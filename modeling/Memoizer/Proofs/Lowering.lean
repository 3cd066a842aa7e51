import Mathlib.Tactic.Common
import Memoizer.Lowering
import Memoizer.Proofs.Facts

namespace Memoizer

open Lower

/-- The expressions that are not taken apart: all but calls, reads of a known property and object literals with names
for keys. -/
def Expr.isWhole : Expr → Bool
  | .member _ property => property.resolve.isNone
  | .call .. => false
  | .object members => !members.all ObjectMember.hasIdentKey
  | _ => true

def Expr.keptAs : Expr → Option String
  | .member _ property => if property.resolve.isSome then none else some "computed member access"
  | .object members =>
    if members.all ObjectMember.hasIdentKey then none else some "object literal with non-identifier keys"
  | .optionalMember .. | .optionalCall .. => some "optional chain"
  | .new .. => some "`new` expression"
  | .template .. => some "template literal"
  | .array _ => some "array literal"
  | .unary .. => some "unary expression"
  | .binary .. => some "binary expression"
  | .conditional .. => some "conditional expression"
  | .assign .. => some "assignment"
  | .spread _ => some "spread"
  | .verbatim _ => some "expression"
  | .literal _ | .ident _ | .call .. | .arrow .. | .function .. => none

def Expr.name? : Expr → Option String
  | .ident name => some name
  | _ => none

/-- The ways in which an expression, a list of arguments and a list of properties are lowered. -/
theorem Expr.lower_induction {P : Expr → Lower InstId → Prop} {Q : List Expr → Lower (List Operand) → Prop}
    {R : List ObjectMember → Lower (List (String × Operand)) → Prop}
    (hliteral : ∀ value, P (.literal value) (emit (.constant (.literal value))))
    (hident : ∀ name, P (.ident name) (lowerIdent name))
    (hfunction : ∀ e, e.isWhole = true → e.name? = none → e.keptAs = none → P e (emit (.constant (.function e))))
    (hkept : ∀ kind e, e.isWhole = true → e.name? = none → e.keptAs = some kind → P e (unsupportedExpr kind e))
    (hread : ∀ object property p, property.resolve = some p → P object object.lower →
      P (.member object property) (do
        let id ← object.lower
        emit (.read id p)))
    (hmethod : ∀ object property args p, property.resolve = some p → P object object.lower →
      Q args (Expr.lowerOperands args) → P (.call (.member object property) args) (do
        let receiver ← object.lower
        let operands ← Expr.lowerOperands args
        emit (.call receiver (some p) operands)))
    (hcall : ∀ callee args, (∀ object property, callee = .member object property → property.resolve = none) →
      P callee callee.lower → Q args (Expr.lowerOperands args) → P (.call callee args) (do
        let receiver ← callee.lower
        let operands ← Expr.lowerOperands args
        emit (.call receiver none operands)))
    (hobject : ∀ members, members.all ObjectMember.hasIdentKey = true → R members (ObjectMember.lowerProps members) →
      P (.object members) (do
        let props ← ObjectMember.lowerProps members
        emit (.object props)))
    (hnil : Q [] (pure []))
    (hlit : ∀ value exprs, Q exprs (Expr.lowerOperands exprs) → Q (.literal value :: exprs) (do
      let operands ← Expr.lowerOperands exprs
      pure (.literal value :: operands)))
    (hcons : ∀ e exprs, (∀ value, e ≠ .literal value) → P e e.lower → Q exprs (Expr.lowerOperands exprs) →
      Q (e :: exprs) (do
        let id ← e.lower
        let operands ← Expr.lowerOperands exprs
        pure (.value id :: operands)))
    (hpnil : R [] (pure []))
    (hplit : ∀ key value shorthand members, R members (ObjectMember.lowerProps members) →
      R (.property (.ident key) (.literal value) shorthand :: members) (do
        let props ← ObjectMember.lowerProps members
        pure ((key, .literal value) :: props)))
    (hpcons : ∀ key value shorthand members, (∀ lit, value ≠ .literal lit) → P value value.lower →
      R members (ObjectMember.lowerProps members) → R (.property (.ident key) value shorthand :: members) (do
        let id ← value.lower
        let props ← ObjectMember.lowerProps members
        pure ((key, .value id) :: props)))
    (hpskip : ∀ m members, m.hasIdentKey = false → R members (ObjectMember.lowerProps members) →
      R (m :: members) (ObjectMember.lowerProps members)) (e : Expr) : P e e.lower := by
  have hcomputed (object : Expr) (property : MemberProp) (h : property.resolve = none) :
      (Expr.member object property).isWhole = true := by rw [isWhole, h]; rfl
  have hkeys (members : List ObjectMember) (h : ¬ members.all ObjectMember.hasIdentKey = true) :
      (Expr.object members).isWhole = true := by simpa [isWhole] using h
  have hcomputedAs (object : Expr) (property : MemberProp) (h : property.resolve = none) :
      (Expr.member object property).keptAs = some "computed member access" := by rw [keptAs, h]; rfl
  have hkeysAs (members : List ObjectMember) (h : ¬ members.all ObjectMember.hasIdentKey = true) :
      (Expr.object members).keptAs = some "object literal with non-identifier keys" := if_neg h
  refine Expr.lower.induct_unfolding P R Q hliteral hident hread
    (fun _ _ h => hkept _ _ (hcomputed _ _ h) rfl (hcomputedAs _ _ h)) hmethod ?computed ?plain hobject
    (fun _ h => hkept _ _ (hkeys _ h) rfl (hkeysAs _ h)) (fun _ _ _ => hfunction _ rfl rfl rfl)
    (fun _ _ _ _ _ => hfunction _ rfl rfl rfl) (fun _ _ => hkept _ _ rfl rfl rfl) (fun _ _ => hkept _ _ rfl rfl rfl)
    (fun _ _ => hkept _ _ rfl rfl rfl) (fun _ _ => hkept _ _ rfl rfl rfl) (fun _ => hkept _ _ rfl rfl rfl)
    (fun _ _ => hkept _ _ rfl rfl rfl) (fun _ _ _ => hkept _ _ rfl rfl rfl) (fun _ _ _ => hkept _ _ rfl rfl rfl)
    (fun _ _ _ => hkept _ _ rfl rfl rfl) (fun _ => hkept _ _ rfl rfl rfl) (fun _ => hkept _ _ rfl rfl rfl) hnil hlit hcons
    hpnil hplit hpcons ?skip e
  case computed =>
    intro object property args hp hargs
    have he : (Expr.member object property).lower = unsupportedExpr "computed member access" (.member object property) := by
      rw [Expr.lower, hp]
    rw [← he]
    refine hcall _ args ?_ ?_ hargs
    · rintro _ _ ⟨⟩
      exact hp
    · rw [he]
      exact hkept _ _ (hcomputed _ _ hp) rfl (hcomputedAs _ _ hp)
  case plain =>
    intro callee args hne
    exact hcall callee args fun object property he => (hne object property he).elim
  case skip =>
    intro m members hlit' hprop
    refine hpskip m members ?_
    cases m with
    | property key value shorthand =>
        cases key with
        | ident key => exact (hprop key value shorthand rfl).elim
        | string | number | computed => rfl
    | spread | verbatim => rfl

/-- What lowering may do to the state: append instructions of the given kind, whose operands stand in
front of them. -/
structure Lowering.Grows (emits : Op → Prop) (s t : Lowering) : Prop where
  name_eq : t.body.name = s.body.name
  insts_isPrefix : s.body.insts <+: t.body.insts
  backward : s.body.Backward → t.body.Backward
  emitted : ∀ inst ∈ t.body.insts, inst ∈ s.body.insts ∨ emits inst.op

namespace Lowering.Grows

variable {emits : Op → Prop} {s t u : Lowering}

theorem of_body_eq (h : t.body = s.body) : s.Grows emits t where
  name_eq := congrArg Body.name h
  insts_isPrefix := h ▸ List.prefix_rfl
  backward hb := h ▸ hb
  emitted _ hi := .inl (h ▸ hi)

theorem refl (s : Lowering) : s.Grows emits s := .of_body_eq rfl

theorem trans (h : s.Grows emits t) (h' : t.Grows emits u) : s.Grows emits u where
  name_eq := h'.name_eq.trans h.name_eq
  insts_isPrefix := h.insts_isPrefix.trans h'.insts_isPrefix
  backward := h'.backward ∘ h.backward
  emitted inst hi := by
    rcases h'.emitted inst hi with hi | he
    · exact h.emitted inst hi
    · exact .inr he

theorem size_le (h : s.Grows emits t) : s.body.size ≤ t.body.size := h.insts_isPrefix.length_le

end Lowering.Grows

theorem Body.backward_append {b : Body} (hb : b.Backward) {inst : Inst} (h : ∀ k ∈ inst.op.operands, k < b.size) :
    Body.Backward { b with insts := b.insts ++ [inst] } := by
  intro id op ho k hk
  obtain ⟨place, hi⟩ := Body.op?_eq_some_iff.mp ho
  rw [List.getElem?_append] at hi
  split at hi
  next => exact hb id op (Body.op?_eq_some_iff.mpr ⟨place, hi⟩) k hk
  next hge =>
    have hid : id = b.insts.length := by
      have := (List.getElem?_eq_some_iff.mp hi).1
      simp at this hge
      exact Nat.le_antisymm (by lia) hge
    subst hid
    simp only [Nat.sub_self, List.getElem?_cons_zero, Option.some.injEq] at hi
    subst hi
    exact h k hk

theorem Body.resolve_binds {b : Body} {name : String} {id : InstId} (h : b.resolve name = some id) :
    ∃ op, b.op? id = some op ∧ name ∈ op.boundNames := by
  have hfold (ps : List (Nat × Inst)) (found : Option Nat) {i : Nat}
      (hi : ps.foldl (fun found p => if p.2.op.boundNames.contains name then some p.1 else found) found = some i) :
      found = some i ∨ ∃ p ∈ ps, p.1 = i ∧ name ∈ p.2.op.boundNames := by
    induction ps generalizing found with
    | nil => exact .inl hi
    | cons p ps ih =>
        rw [List.foldl_cons] at hi
        rcases ih _ hi with hf | ⟨q, hq, hqi, hn⟩
        · by_cases hn : name ∈ p.2.op.boundNames
          · rw [if_pos (by simpa using hn), Option.some.injEq] at hf
            exact .inr ⟨p, by simp, hf, hn⟩
          · rw [if_neg (by simpa using hn)] at hf
            exact .inl hf
        · exact .inr ⟨q, by simp [hq], hqi, hn⟩
  obtain hf | ⟨p, hp, rfl, hn⟩ := hfold _ none h
  · cases hf
  · exact ⟨p.2.op, Body.op?_of_mem_entries hp, hn⟩

theorem Body.lt_size_of_resolve {b : Body} {name : String} {id : InstId} (h : b.resolve name = some id) :
    id < b.size := by
  obtain ⟨op, ho, _⟩ := Body.resolve_binds h
  exact Body.lt_size_of_op? ho

namespace Lower

theorem bind_ok {α β : Type} {m : Lower α} {k : α → Lower β} {s t : Lowering} {a : α} (h : m s = .ok a t) :
    (m >>= k) s = k a t := by
  simp only [bind, EStateM.bind, h]

theorem bind_error {α β : Type} {m : Lower α} {k : α → Lower β} {s t : Lowering} {e : Error} (h : m s = .error e t) :
    (m >>= k) s = .error e t := by
  simp only [bind, EStateM.bind, h]

theorem emit_grows {emits : Op → Prop} {op : Op} (hop : emits op) (s : Lowering) (h : ∀ k ∈ op.operands, k < s.body.size) :
    ∃ t, emit op s = .ok s.body.size t ∧ s.Grows emits t ∧ s.body.size < t.body.size := by
  have hall : (op.operands.all (decide <| · < s.body.size)) = true := by simpa using h
  refine ⟨{ s with body := { s.body with insts := s.body.insts ++ [⟨op, s.place⟩] } }, ?_, ⟨rfl, ?_, ?_, ?_⟩, ?_⟩
  · simp only [emit, Builder.emit?, Body.emit?, hall, if_true, Option.map_some]
    rfl
  · exact List.prefix_append _ _
  · intro hb
    exact Body.backward_append hb h
  · intro inst hi
    rcases List.mem_append.mp hi with hi | hi
    · exact .inl hi
    · rw [List.mem_singleton] at hi
      subst hi
      exact .inr hop
  · simp [Body.size]

/-- Started where the known ids lie inside the body, the computation ends well, appends nothing but
instructions of the given kind, and the ids that it gives lie inside the body too. -/
def Gives {α : Type} (emits : Op → Prop) (known : List InstId) (m : Lower α) (ids : α → List InstId) : Prop :=
  ∀ s : Lowering, (∀ id ∈ known, id < s.body.size) →
    ∃ a t, m s = .ok a t ∧ s.Grows emits t ∧ ∀ id ∈ ids a, id < t.body.size

section Gives

variable {α β : Type} {emits : Op → Prop} {known : List InstId} {ids : α → List InstId} {ids' : β → List InstId}

theorem Gives.pure {a : α} (h : ∀ id ∈ ids a, id ∈ known) : Gives emits known (pure a) ids :=
  fun s hk => ⟨a, s, rfl, .refl s, fun id hid => hk id (h id hid)⟩

theorem Gives.bind {m : Lower α} {k : α → Lower β} (hm : Gives emits known m ids)
    (hk : ∀ a, Gives emits (known ++ ids a) (k a) ids') : Gives emits known (m >>= k) ids' := by
  intro s hs
  obtain ⟨a, t, he, hg, ha⟩ := hm s hs
  have ht : ∀ id ∈ known ++ ids a, id < t.body.size := by
    intro id hid
    rcases List.mem_append.mp hid with hid | hid
    · exact Nat.lt_of_lt_of_le (hs id hid) hg.size_le
    · exact ha id hid
  obtain ⟨b, u, he', hg', hb⟩ := hk a t ht
  exact ⟨b, u, (bind_ok he).trans he', hg.trans hg', hb⟩

theorem Gives.weaken {m : Lower α} {known' : List InstId} (hm : Gives emits known m ids)
    (h : ∀ id ∈ known, id ∈ known') : Gives emits known' m ids := fun s hs => hm s fun id hid => hs id (h id hid)

theorem Gives.emit {op : Op} (hop : emits op) (h : ∀ k ∈ op.operands, k ∈ known) :
    Gives emits known (emit op) ([·]) := by
  intro s hs
  obtain ⟨t, he, hg, hlt⟩ := emit_grows hop s fun k hk => hs k (h k hk)
  exact ⟨_, t, he, hg, by simpa using hlt⟩

theorem Gives.discard {m : Lower α} (h : Gives emits known m ids) :
    Gives emits known (do let _ ← m) (fun _ => []) := h.bind fun _ => .pure (by simp)

variable (hplain : ∀ op : Op, op.boundNames = [] → emits op)

include hplain

theorem gives_unsupported (kind : String) (expr : Option Expr) (place : Option Place) :
    Gives emits known (unsupported kind expr place) ([·]) := by
  intro s _
  let line := "unsupported " ++ kind ++ " in `" ++ s.body.name ++ "`" ++ atText place ++ "; kept opaque"
  have hnote : s.Grows emits { s with log := s.log.push .warn line } := .of_body_eq rfl
  obtain ⟨t, he, hg, hlt⟩ := emit_grows (hplain (.constant (.unsupported kind expr)) rfl)
    { s with log := s.log.push .warn line } (by simp [Op.operands])
  exact ⟨_, t, he, hnote.trans hg, by simpa using hlt⟩

theorem gives_unsupportedExpr (kind : String) (e : Expr) : Gives emits known (unsupportedExpr kind e) ([·]) :=
  fun s hs => gives_unsupported hplain kind (some e) s.place s hs

theorem gives_lowerIdent (name : String) : Gives emits known (lowerIdent name) ([·]) := by
  intro s _
  have hget : (get : Lower Lowering) s = .ok s s := rfl
  rw [lowerIdent, bind_ok hget]
  cases hr : s.body.resolve name with
  | some id => exact ⟨id, s, rfl, .refl s, by simpa using Body.lt_size_of_resolve hr⟩
  | none =>
      obtain ⟨t, he, hg, hlt⟩ := emit_grows (hplain (.constant (.global name)) rfl) s (by simp [Op.operands])
      exact ⟨_, t, he, hg, by simpa using hlt⟩

end Gives

end Lower

def Operand.ids (operands : List Operand) : List InstId := operands.filterMap Operand.id?

def Property.ids (props : List (String × Operand)) : List InstId := props.filterMap (·.2.id?)

theorem Expr.gives_lower {emits : Op → Prop} (hplain : ∀ op : Op, op.boundNames = [] → emits op) (e : Expr) :
    Gives emits [] e.lower ([·]) := by
  refine Expr.lower_induction (P := fun _ m => Gives emits [] m ([·])) (Q := fun _ m => Gives emits [] m Operand.ids)
    (R := fun _ m => Gives emits [] m Property.ids) ?literal ?ident ?function ?kept ?read ?method ?call ?object
    ?nil ?lit ?cons ?pnil ?plit ?pcons ?pskip e
  case literal => exact fun value => .emit (hplain _ rfl) (by simp [Op.operands])
  case ident => exact fun name => gives_lowerIdent hplain name
  case function => exact fun e _ _ _ => .emit (hplain _ rfl) (by simp [Op.operands])
  case kept => exact fun kind e _ _ _ => gives_unsupportedExpr hplain kind e
  case read =>
    intro object property p _ ho
    exact ho.bind fun id => .emit (hplain _ rfl) (by simp [Op.operands])
  case method =>
    intro object property args p _ ho ha
    refine ho.bind fun receiver => (ha.weaken (by simp)).bind fun operands => .emit (hplain _ rfl) ?_
    simp [Op.operands, Operand.ids]
  case call =>
    intro callee args _ hc ha
    refine hc.bind fun receiver => (ha.weaken (by simp)).bind fun operands => .emit (hplain _ rfl) ?_
    simp [Op.operands, Operand.ids]
  case object =>
    intro members _ hp
    exact hp.bind fun props => .emit (hplain _ rfl) (by simp [Op.operands, Property.ids])
  case nil => exact .pure (by simp [Operand.ids])
  case lit =>
    intro value exprs he
    exact he.bind fun operands => .pure (by simp [Operand.ids, Operand.id?])
  case cons =>
    intro e exprs _ he hes
    refine he.bind fun id => (hes.weaken (by simp)).bind fun operands => .pure ?_
    simp [Operand.ids, Operand.id?]
  case pnil => exact .pure (by simp [Property.ids])
  case plit =>
    intro key value shorthand members hm
    exact hm.bind fun props => .pure (by simp [Property.ids, Operand.id?])
  case pcons =>
    intro key value shorthand members _ hv hm
    refine hv.bind fun id => (hm.weaken (by simp)).bind fun props => .pure ?_
    simp [Property.ids, Operand.id?]
  case pskip => exact fun m members _ hm => hm

namespace Lower

/-- The run has only appended, and if it failed, then for a structural reason. -/
def EndsFrom (emits : Op → Prop) (s : Lowering) (r : EStateM.Result Error Lowering Unit) : Prop :=
  (∃ t, r = .ok () t ∧ s.Grows emits t) ∨ ∃ cause t, r = .error (.structural s.body.name cause) t ∧ s.Grows emits t

def Ends (emits : Op → Prop) (m : Lower Unit) : Prop := ∀ s : Lowering, EndsFrom emits s (m s)

section Ends

variable {emits : Op → Prop}

theorem EndsFrom.after {s t : Lowering} {r : EStateM.Result Error Lowering Unit} (hg : s.Grows emits t)
    (h : EndsFrom emits t r) : EndsFrom emits s r := by
  rcases h with ⟨u, he, hg'⟩ | ⟨cause, u, he, hg'⟩
  · exact .inl ⟨u, he, hg.trans hg'⟩
  · rw [hg.name_eq] at he
    exact .inr ⟨cause, u, he, hg.trans hg'⟩

theorem Gives.bind_ends {α : Type} {m : Lower α} {k : α → Lower Unit} {ids : α → List InstId}
    (hm : Gives emits [] m ids) (hk : ∀ a, Ends emits (k a)) : Ends emits (m >>= k) := by
  intro s
  obtain ⟨a, t, he, hg, _⟩ := hm s (by simp)
  rw [bind_ok he]
  exact (hk a t).after hg

theorem Gives.ends {m : Lower Unit} (h : Gives emits [] m fun _ => []) : Ends emits m := by
  intro s
  obtain ⟨_, t, he, hg, _⟩ := h s (by simp)
  exact .inl ⟨t, he, hg⟩

theorem Ends.grows {m : Lower Unit} {s t : Lowering} (hm : Ends emits m) (h : m s = .ok () t) : s.Grows emits t := by
  rcases hm s with ⟨u, he, hg⟩ | ⟨cause, u, he, _⟩
  · rw [he] at h
    cases h
    exact hg
  · rw [he] at h
    cases h

theorem Ends.pure : Ends emits (pure ()) := fun s => .inl ⟨s, rfl, .refl s⟩

theorem Ends.bind {m : Lower Unit} {k : Unit → Lower Unit} (hm : Ends emits m) (hk : Ends emits (k ())) :
    Ends emits (m >>= k) := by
  intro s
  rcases hm s with ⟨t, he, hg⟩ | ⟨cause, t, he, hg⟩
  · rw [bind_ok he]
    exact (hk t).after hg
  · exact .inr ⟨cause, t, bind_error he, hg⟩

theorem ends_fail (cause : Cause) : Ends emits (fail cause) :=
  fun _ => .inr ⟨cause, _, rfl, .of_body_eq rfl⟩

theorem ends_note (level : Level) (message : String) : Ends emits (note level message) :=
  fun _ => .inl ⟨_, rfl, .of_body_eq rfl⟩

theorem ends_stamp (place : Option Place) : Ends emits (stamp place) :=
  fun _ => .inl ⟨_, rfl, .of_body_eq rfl⟩

end Ends

end Lower

def Pattern.isDeclarable : Pattern → Bool
  | .ident _ => true
  | .array _ => true
  | _ => false

/-- What the lowering of a function with these statements emits: an instruction that binds nothing, a
parameter, or the declaration of a target of one of the statements. -/
inductive Op.LoweredFrom (stmts : List Stmt) : Op → Prop
  | plain {op : Op} (h : op.boundNames = []) : LoweredFrom stmts op
  | param (name : String) : LoweredFrom stmts (.param name)
  | declared {kind : DeclKind} {declarators : List Declarator} {place : Option Place} {target : Pattern}
      {init : Option Expr} (hs : .decl kind declarators place ∈ stmts) (hd : .mk target init ∈ declarators)
      (htarget : target.isDeclarable = true) (value : InstId) : LoweredFrom stmts (.ofDeclaration kind target value)

section Parameters

variable {emits : Op → Prop} (hparam : ∀ name, emits (.param name))

include hparam

theorem gives_param (name : String) : Gives emits [] (emit (.param name)) ([·]) :=
  .emit (hparam name) (by simp [Op.operands])

theorem PatternProp.ends_lowerParams (props : List PatternProp) : Ends emits (PatternProp.lowerParams props) := by
  induction props with
  | nil => exact .pure
  | cons prop props ih =>
      obtain ⟨key, value, shorthand⟩ := prop
      cases key with
      | ident key => exact (gives_param hparam (PatternProp.localName key value)).bind_ends fun _ => ih
      | string | number | computed => exact ends_fail .parameterKey

theorem ends_lowerNames (names : List String) : Ends emits (lowerNames names) := by
  induction names with
  | nil => exact .pure
  | cons name names ih => exact (gives_param hparam name).bind_ends fun _ => ih

theorem Pattern.ends_lowerParam (p : Pattern) : Ends emits p.lowerParam := by
  fun_induction Pattern.lowerParam p with
  | case1 name => exact (gives_param hparam name).discard.ends
  | case2 target _ ih => exact ih
  | case3 target ih => exact ih
  | case4 props => exact PatternProp.ends_lowerParams hparam props
  | case5 props others ih => exact (PatternProp.ends_lowerParams hparam props).bind ih
  | case6 elems => exact ends_lowerNames hparam _

theorem Pattern.ends_lowerParams (params : List Pattern) : Ends emits (Pattern.lowerParams params) := by
  induction params with
  | nil => exact .pure
  | cons p params ih => exact (p.ends_lowerParam hparam).bind ih

end Parameters

section Statements

variable {all : List Stmt}

theorem Declarator.gives_lower {emits : Op → Prop} (hplain : ∀ op : Op, op.boundNames = [] → emits op) (kind : DeclKind)
    (place : Option Place) {target : Pattern}
    (hdeclared : target.isDeclarable = true → ∀ value, emits (.ofDeclaration kind target value)) (init : Expr) :
    Gives emits [] (Declarator.lower kind place (.mk target (some init))) (fun _ => []) := by
  have hdeclare (htarget : target.isDeclarable = true) (value : InstId) : Gives emits ([] ++ [value])
      (do let _ ← emit (.ofDeclaration kind target value)) (fun _ => []) :=
    (Gives.emit (hdeclared htarget value) (by simp [Op.ofDeclaration, Op.operands])).discard
  have hkept (value : InstId) : Gives emits ([] ++ [value])
      (do let _ ← unsupported "destructuring declaration" none place) (fun _ => []) :=
    (gives_unsupported hplain _ _ _).discard
  refine (init.gives_lower hplain).bind fun value => ?_
  cases target with
  | ident | array => exact hdeclare rfl value
  | object | assign | rest => exact hkept value

theorem Declarator.ends_lower {kind : DeclKind} {declarators : List Declarator} {place : Option Place}
    (hs : .decl kind declarators place ∈ all) {d : Declarator} (hd : d ∈ declarators) :
    Ends (Op.LoweredFrom all) (d.lower kind place) := by
  obtain ⟨target, init⟩ := d
  cases init with
  | none => exact ends_fail _
  | some init => exact (Declarator.gives_lower (fun _ => .plain) kind place (.declared hs hd) init).ends

theorem Declarator.ends_lowerAll {kind : DeclKind} {declarators : List Declarator} {place : Option Place}
    (hs : .decl kind declarators place ∈ all) {ds : List Declarator} (hds : ds ⊆ declarators) :
    Ends (Op.LoweredFrom all) (Declarator.lowerAll kind place ds) := by
  induction ds with
  | nil => exact .pure
  | cons d ds ih =>
      obtain ⟨hd, hds⟩ := List.cons_subset.mp hds
      exact (Declarator.ends_lower hs hd).bind (ih hds)

theorem Stmt.ends_lower {s : Stmt} (hs : s ∈ all) : Ends (Op.LoweredFrom all) s.lower := by
  refine (ends_stamp s.place).bind ?_
  cases s with
  | decl kind declarators place => exact Declarator.ends_lowerAll hs (List.Subset.refl _)
  | ret value place =>
      cases value with
      | none => exact (Gives.emit (.plain rfl) (by simp [Op.operands])).discard.ends
      | some value =>
          refine Gives.ends ((value.gives_lower fun _ => .plain).bind fun id => Gives.discard (Gives.emit (.plain rfl) ?_))
          simp [Op.operands]
  | expr value place => exact (value.gives_lower fun _ => .plain).discard.ends
  | verbatim kind text place => exact (gives_unsupported (fun _ => .plain) kind none place).discard.ends

theorem Stmt.ends_lowerAll {stmts : List Stmt} (hs : stmts ⊆ all) : Ends (Op.LoweredFrom all) (Stmt.lowerAll stmts) := by
  induction stmts with
  | nil => exact .pure
  | cons s stmts ih =>
      obtain ⟨hhead, hs⟩ := List.cons_subset.mp hs
      exact (Stmt.ends_lower hhead).bind (ih hs)

end Statements

namespace Function

theorem ends_lowerInto (f : Function) : Ends (Op.LoweredFrom f.body) f.lowerInto := by
  refine (Pattern.ends_lowerParams .param f.params).bind ((Stmt.ends_lowerAll (List.Subset.refl _)).bind ?_)
  exact fun s => ends_note _ _ s

def blank (f : Function) (log : Log) : Lowering := { body := ⟨f.name, []⟩, place := f.place, log }

/-- The instructions that the lowering of a function has emitted when it ends, well or not. -/
def emitted (f : Function) (log : Log) : Body :=
  match f.lowerInto (f.blank log) with
  | .ok _ s => s.body
  | .error _ s => s.body

theorem blank_backward (f : Function) (log : Log) : (f.blank log).body.Backward := by
  intro id op h
  simp [blank, Body.op?] at h

theorem emitted_grows (f : Function) (log : Log) :
    ∃ t, f.emitted log = t.body ∧ (f.blank log).Grows (Op.LoweredFrom f.body) t := by
  rcases f.ends_lowerInto (f.blank log) with ⟨t, he, hg⟩ | ⟨cause, t, he, hg⟩
  all_goals exact ⟨t, by rw [emitted, he], hg⟩

theorem emitted_backward (f : Function) (log : Log) : (f.emitted log).Backward := by
  obtain ⟨t, he, hg⟩ := f.emitted_grows log
  rw [he]
  exact hg.backward (f.blank_backward log)

theorem loweredFrom_of_op? {f : Function} {log : Log} {id : InstId} {op : Op} (h : (f.emitted log).op? id = some op) :
    op.LoweredFrom f.body := by
  obtain ⟨t, he, hg⟩ := f.emitted_grows log
  obtain ⟨place, hi⟩ := Body.op?_eq_some_iff.mp h
  rw [he] at hi
  rcases hg.emitted _ (List.mem_of_getElem? hi) with hold | hop
  · cases hold
  · exact hop

theorem lower_of_ok {f : Function} {log : Log} {s : Lowering} (h : f.lowerInto (f.blank log) = .ok () s) :
    f.lower log = .ok s.body s.log := by
  rw [blank] at h
  rw [lower, h]

theorem lower_of_error {f : Function} {log : Log} {e : Error} {s : Lowering}
    (h : f.lowerInto (f.blank log) = .error e s) : f.lower log = .error e s.log := by
  rw [blank] at h
  rw [lower, h]

theorem lower_cases (f : Function) (log : Log) :
    (∃ log', f.lower log = .ok (f.emitted log) log') ∨
      ∃ cause log', f.lower log = .error (.structural f.name cause) log' := by
  rcases f.ends_lowerInto (f.blank log) with ⟨t, he, _⟩ | ⟨cause, t, he, _⟩
  · exact .inl ⟨t.log, by rw [lower_of_ok he, emitted, he]⟩
  · exact .inr ⟨cause, t.log, lower_of_error he⟩

end Function

end Memoizer
