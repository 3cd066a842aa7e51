import Memoizer.Proofs.Segments
import Memoizer.Rebuild

namespace Memoizer

open Lower

theorem Operand.rebuildWith_congr {value value' : InstId → Expr} {operand : Operand}
    (h : ∀ k, operand.id? = some k → value k = value' k) : operand.rebuildWith value = operand.rebuildWith value' := by
  cases operand with
  | literal lit => rfl
  | value k => exact h k rfl

theorem Op.rebuildWith_congr {value value' : InstId → Expr} {op : Op} (h : ∀ k ∈ op.operands, value k = value' k) :
    op.rebuildWith value = op.rebuildWith value' := by
  cases op with
  | param | constant | declare => rfl
  | read base property => rw [rebuildWith, rebuildWith, h base (by simp [operands])]
  | object props =>
      rw [rebuildWith, rebuildWith, Expr.object.injEq]
      apply List.map_congr_left
      intro p hp
      rw [Operand.rebuildWith_congr fun k hk => h k (List.mem_filterMap.mpr ⟨p, hp, hk⟩)]
  | call receiver property args =>
      have hreceiver : value receiver = value' receiver := h receiver (by simp [operands])
      have hargs : args.map (Operand.rebuildWith value) = args.map (Operand.rebuildWith value') := by
        apply List.map_congr_left
        intro a ha
        exact Operand.rebuildWith_congr fun k hk => h k (List.mem_cons_of_mem _ (List.mem_filterMap.mpr ⟨a, ha, hk⟩))
      cases property <;> simp only [rebuildWith, hreceiver, hargs]
  | ret result =>
      cases result with
      | none => rfl
      | some k => exact h k (by simp [operands])

namespace Body

variable {b : Body} {id : InstId} {op : Op}

theorem rebuildExpr_eq (hb : b.Backward) (ho : b.op? id = some op) : b.rebuildExpr id = op.rebuildWith b.rebuildExpr := by
  rw [rebuildExpr, ho]
  exact Op.rebuildWith_congr fun k hk => if_pos (hb id op ho k hk)

/-- Whatever binds a name is read by that name. A pattern that binds several names is read by the first of them
only. -/
def BindsPlainly (b : Body) : Prop :=
  ∀ id op name, b.op? id = some op → name ∈ op.boundNames → b.rebuildExpr id = .ident name

end Body

mutual

/-- The expression as it comes back: a known property is written behind a dot if it can be, and the properties of an
object are written in full. -/
def Expr.respelled : Expr → Expr
  | .member object property =>
    match property.resolve with
    | some p => p.accessOf object.respelled
    | none => .member object property
  | .call callee args => .call callee.respelled (Expr.respelledAll args)
  | .object members =>
    if members.all ObjectMember.hasIdentKey then .object (ObjectMember.respelledAll members) else .object members
  | e => e

def Expr.respelledAll : List Expr → List Expr
  | [] => []
  | e :: exprs => e.respelled :: Expr.respelledAll exprs

def ObjectMember.respelledAll : List ObjectMember → List ObjectMember
  | [] => []
  | .property (.ident key) value _ :: members =>
    .property (.ident key) value.respelled false :: ObjectMember.respelledAll members
  | _ :: members => ObjectMember.respelledAll members

end

theorem Expr.respelled_of_isWhole {e : Expr} (h : e.isWhole = true) : e.respelled = e := by
  cases e with
  | member object property =>
      rw [isWhole, Option.isNone_iff_eq_none] at h
      rw [respelled, h]
  | call => cases h
  | object members =>
      rw [isWhole, Bool.not_eq_true'] at h
      rw [respelled, h]
      rfl
  | literal | ident | optionalMember | optionalCall | new | template | array | arrow | function | unary | binary
  | conditional | assign | spread | verbatim => rw [respelled] <;> simp

def Expr.isCall : Expr → Bool
  | .call .. => true
  | _ => false

theorem Expr.isCall_of_isWhole {e : Expr} (h : e.isWhole = true) : e.isCall = false := by
  cases e with
  | call => cases h
  | _ => rfl

namespace Lower

structure Found (b : Body) (s t : Lowering) (ids : List InstId) (p : Prop) : Prop where
  size_le : s.body.size ≤ t.body.size
  place_eq : t.place = s.place
  segment : b.Segment s.body.size t.body.size ids
  holds : b.BindsPlainly → p

namespace Found

variable {b : Body} {s t u : Lowering} {ids ids' : List InstId} {p q : Prop}

theorem nil (hp : p) : Found b s s [] p := ⟨Nat.le_refl _, rfl, .of_binds (by simp), fun _ => hp⟩

theorem imp (h : Found b s t ids p) (hpq : p → q) : Found b s t ids q :=
  ⟨h.size_le, h.place_eq, h.segment, fun hb => hpq (h.holds hb)⟩

theorem append (h : Found b s t ids p) (h' : Found b t u ids' q) : Found b s u (ids ++ ids') (p ∧ q) :=
  ⟨Nat.le_trans h.size_le h'.size_le, h'.place_eq.trans h.place_eq, h.segment.append h'.segment h.size_le,
    fun hb => ⟨h.holds hb, h'.holds hb⟩⟩

theorem emit (h : Found b s t ids p) (hb : b.Backward) {op : Op} {id : InstId} (he : Emitted b t u op id)
    (hvalue : op.isValue = true) (hids : op.operands = ids) {e : Expr} (hop : p → op.rebuildWith b.rebuildExpr = e) :
    Found b s u [id] (b.rebuildExpr id = e) where
  size_le := by
    rw [he.size_eq]
    exact Nat.le_succ_of_le h.size_le
  place_eq := he.place_eq.trans h.place_eq
  segment := by
    have ho := he.op?_eq
    rw [he.id_eq] at ho
    rw [he.size_eq, he.id_eq]
    exact h.segment.emit h.size_le ho hvalue hids
  holds hplain := (Body.rebuildExpr_eq hb he.op?_eq).trans (hop (h.holds hplain))

end Found

structure Recovered (b : Body) (s t : Lowering) (e : Expr) (id : InstId) : Prop extends
    Found b s t [id] (b.rebuildExpr id = e.respelled) where
  call_last : e.isCall = true → t.body.size = id + 1 ∧
    ∃ receiver property args, b.insts[id]? = some ⟨.call receiver property args, s.place⟩

theorem Recovered.of_emitted {b : Body} (hb : b.Backward) {s t : Lowering} {e : Expr} {c : Constant} {id : InstId}
    (h : Emitted b s t (.constant c) id) (hc : c.rebuild = e) (he : e.isWhole = true) : Recovered b s t e id where
  toFound := Found.emit (.nil trivial) hb h rfl rfl fun _ => hc.trans (Expr.respelled_of_isWhole he).symm
  call_last hcall := by
    rw [Expr.isCall_of_isWhole he] at hcall
    cases hcall

theorem Recovered.of_call {b : Body} (hb : b.Backward) {s t u : Lowering} {receiver id : InstId}
    {property : Option Property} {args : List Operand} {callee : Expr} {exprs : List Expr} {p : Prop}
    (h : Found b s t (receiver :: Operand.ids args) p) (he : Emitted b t u (.call receiver property args) id)
    (hop : p → (Op.call receiver property args).rebuildWith b.rebuildExpr = (Expr.call callee exprs).respelled) :
    Recovered b s u (.call callee exprs) id where
  toFound := h.emit hb he rfl rfl hop
  call_last _ := ⟨he.id_eq ▸ he.size_eq, receiver, property, args, h.place_eq ▸ he.inst_eq⟩

theorem builds_lowerIdent (name : String) :
    Builds (lowerIdent name) fun b s t id => Recovered b s t (.ident name) id := by
  intro s id t h
  have hget : (get : Lower Lowering) s = .ok s s := rfl
  rw [lowerIdent, bind_ok hget] at h
  cases hr : s.body.resolve name with
  | none =>
      rw [hr] at h
      exact (builds_emit _).mono (fun b hb s t id he => Recovered.of_emitted hb he rfl rfl) s id t h
  | some k =>
      rw [hr] at h
      cases h
      refine ⟨List.prefix_rfl, fun b _ hpre => ?_⟩
      obtain ⟨op, ho, hname⟩ := Body.resolve_binds hr
      have ho' := Body.op?_of_isPrefix hpre ho
      refine ⟨⟨Nat.le_refl _, rfl, .of_binds ?_, fun hplain => hplain id op name ho' hname⟩, fun hcall => ?_⟩
      · intro k hk
        rw [List.mem_singleton] at hk
        subst hk
        exact ⟨op, ho', List.ne_nil_of_mem hname⟩
      · cases hcall

end Lower

/-- Rebuilding the instruction that an expression is lowered to gives the expression, respelled. -/
theorem Expr.builds_lower (e : Expr) : Builds e.lower fun b s t id => Recovered b s t e id := by
  refine Expr.lower_induction (P := fun e m => Builds m fun b s t id => Recovered b s t e id)
    (Q := fun exprs m => Builds m fun b s t operands => Found b s t (Operand.ids operands)
      (operands.map (Operand.rebuildWith b.rebuildExpr) = Expr.respelledAll exprs))
    (R := fun members m => Builds m fun b s t props => Found b s t (Property.ids props)
      (props.map (fun p => ObjectMember.property (.ident p.1) (p.2.rebuildWith b.rebuildExpr) false) =
        ObjectMember.respelledAll members))
    ?literal ?ident ?function ?kept ?read ?method ?call ?object ?nil ?lit ?cons ?pnil ?plit ?pcons ?pskip e
  case literal =>
    intro value
    exact (builds_emit _).mono fun b hb s t id he => .of_emitted hb he rfl rfl
  case ident => exact builds_lowerIdent
  case function =>
    intro e he _ _
    exact (builds_emit _).mono fun b hb s t id hid => .of_emitted hb hid rfl he
  case kept =>
    intro kind e he _ _
    exact (builds_unsupportedExpr kind e).mono fun b hb s t id hid => .of_emitted hb hid rfl he
  case read =>
    intro object property p hp ho
    refine ho.bind (fun id => builds_emit (.read id p)) fun b hb s t u id id' hf he => ⟨?_, fun hcall => nomatch hcall⟩
    refine hf.emit hb he rfl rfl fun hv => ?_
    rw [Op.rebuildWith, hv, Expr.respelled, hp]
  -- The receiver's segment comes first, then the arguments', and the call consumes the results of both.
  case method =>
    intro object property args p hp ho ha
    refine ho.bind₂ ha (fun receiver operands => builds_emit (.call receiver (some p) operands))
      fun b hb s t u v receiver operands id hf hg he => .of_call hb (hf.append hg) he ?_
    rintro ⟨hv, hargs⟩
    rw [Op.rebuildWith, hv, hargs, Expr.respelled, Expr.respelled, hp]
  case call =>
    intro callee args _ hc ha
    refine hc.bind₂ ha (fun receiver operands => builds_emit (.call receiver none operands))
      fun b hb s t u v receiver operands id hf hg he => .of_call hb (hf.append hg) he ?_
    rintro ⟨hv, hargs⟩
    rw [Op.rebuildWith, hv, hargs, Expr.respelled]
  case object =>
    intro members hall hm
    refine hm.bind (fun props => builds_emit (.object props))
      fun b hb s t u props id hf he => ⟨?_, fun hcall => nomatch hcall⟩
    refine hf.emit hb he rfl rfl fun hv => ?_
    rw [Op.rebuildWith, hv, Expr.respelled, if_pos hall]
  case nil => exact .pure fun b s => .nil rfl
  case lit =>
    intro value exprs hes
    refine hes.bind (w := fun operands _ s t c => t = s ∧ c = .literal value :: operands)
      (fun operands => .pure fun _ _ => ⟨rfl, rfl⟩) ?_
    rintro b _ s t _ operands _ hf ⟨rfl, rfl⟩
    refine hf.imp fun hv => ?_
    rw [List.map_cons, hv, Expr.respelledAll]
    rfl
  case cons =>
    intro e exprs _ he hes
    refine he.bind₂ hes (w := fun id operands _ s t c => t = s ∧ c = .value id :: operands)
      (fun id operands => .pure fun _ _ => ⟨rfl, rfl⟩) ?_
    rintro b _ s t u _ id operands _ hf hg ⟨rfl, rfl⟩
    refine (hf.append hg).imp ?_
    rintro ⟨hv, hvs⟩
    rw [List.map_cons, hvs, Expr.respelledAll, ← hv]
    rfl
  case pnil => exact .pure fun b s => .nil rfl
  case plit =>
    intro key value shorthand members hm
    refine hm.bind (w := fun props _ s t c => t = s ∧ c = (key, .literal value) :: props)
      (fun props => .pure fun _ _ => ⟨rfl, rfl⟩) ?_
    rintro b _ s t _ props _ hf ⟨rfl, rfl⟩
    refine hf.imp fun hv => ?_
    rw [List.map_cons, hv, ObjectMember.respelledAll]
    rfl
  case pcons =>
    intro key value shorthand members _ he hm
    refine he.bind₂ hm (w := fun id props _ s t c => t = s ∧ c = (key, .value id) :: props)
      (fun id props => .pure fun _ _ => ⟨rfl, rfl⟩) ?_
    rintro b _ s t u _ id props _ hf hg ⟨rfl, rfl⟩
    refine (hf.append hg).imp ?_
    rintro ⟨hv, hvs⟩
    rw [List.map_cons, hvs, ObjectMember.respelledAll, ← hv]
    rfl
  case pskip =>
    intro m members hm hms
    refine hms.mono fun b _ s t props hf => hf.imp fun hv => hv.trans ?_
    cases m with
    | property key value shorthand =>
        cases key with
        | ident key => cases hm
        | string | number | computed => rw [ObjectMember.respelledAll]; simp
    | spread | verbatim => rw [ObjectMember.respelledAll]; simp

end Memoizer
