import Mathlib
import Memoizer.Proofs.ExpressionReader

namespace Memoizer

open Source
open Operators (ends_cons toList_parens toList_join_cons printIn_member printIn_call)

/-- Names, accesses by name, calls and `new`, in any nesting. -/
inductive Expr.IsChain : Expr → Prop
  | ident {name : String} (hname : IsVariableName name) : IsChain (.ident name)
  | member {base : Expr} {name : String} (h : IsChain base) (hname : Text.isName name = true) :
      IsChain (.member base (.name name))
  | call {callee : Expr} {args : List Expr} (h : IsChain callee) (hargs : ∀ a ∈ args, IsChain a) :
      IsChain (.call callee args)
  | new {callee : Expr} {args : List Expr} (h : IsChain callee) (hargs : ∀ a ∈ args, IsChain a) :
      IsChain (.new callee args)

def Expr.calleeText (e : Expr) : String := Text.parensIf e.isLooseCallee (e.printIn "")

def Expr.builtText (e : Expr) : String := Text.parensIf e.isLooseConstructor (e.printIn "")

def Expr.argsText (args : List Expr) : String := Text.join ", " (Expr.printList "" args)

theorem printIn_new (callee : Expr) (args : List Expr) :
    (Expr.new callee args).printIn "" = "new " ++ callee.builtText ++ Text.parens (Expr.argsText args) := rfl

theorem toList_new (callee : Expr) (args : List Expr) (rest : List Char) :
    ((Expr.new callee args).printIn "").toList ++ rest =
      "new ".toList ++ (callee.builtText.toList ++ '(' :: ((Expr.argsText args).toList ++ ')' :: rest)) := by
  rw [printIn_new, String.toList_append, String.toList_append, toList_parens]
  simp

/-- What a printed expression is read as alone and behind `new`, and whether `new` has found its arguments in it. -/
structure Rereading where
  alone : Expr
  built : Expr
  complete : Bool

/-- The arguments go to the `new` in front, if it has found none. -/
def Rereading.apply (r : Rereading) (args : List Expr) : Expr :=
  if r.complete then .call r.built args else .new r.built args

mutual

def Expr.rereading : Expr → Rereading
  | .member base (.name name) =>
    let r := base.rereading
    ⟨.member r.alone (.name name), .member r.built (.name name), r.complete⟩
  | .call callee args =>
    let r := callee.rereading
    ⟨.call r.alone (Expr.rereadList args), r.apply (Expr.rereadList args), true⟩
  | .new callee args =>
    let r := callee.rereading
    let e := if callee.isLooseConstructor then .new r.alone (Expr.rereadList args) else r.apply (Expr.rereadList args)
    ⟨e, e, false⟩
  | e => ⟨e, e, false⟩

def Expr.rereadList : List Expr → List Expr
  | [] => []
  | e :: exprs => e.rereading.alone :: Expr.rereadList exprs

end

section Links

variable {g : Grammar} {ctx : Context} {c : Cursor} {node : Node} {e : Expr} {rest : List Char}

theorem links_name {name : String} (hnode : node.Holds e) (hname : Text.isName name = true) (hrest : Ends rest)
    (hc : c.Stands ('.' :: (name.toList ++ rest))) (calls : Bool) :
    ∃ next, next.Holds (.member e (.name name)) ∧
      links g calls node ctx c = links g calls next ctx (Cursor.of rest) := by
  obtain ⟨d, ds, hchars, hdigit, hclass⟩ := exists_of_isName hname
  have hpoint : c.IsAt (.punct ".") (name.toList ++ rest) := by
    rw [hchars] at hc ⊢
    exact (lexes_point (hclass d (List.mem_cons_self ..)) hdigit (ds ++ rest)).isAt hc
  have hat := (lexes_name hname hrest).isAt (Cursor.stands_of _)
  let next : Node :=
    { start := node.start, expr := .member node.expr (.name name),
      target := .simple (.verbatim (node.start.slice (Cursor.of rest).behind)) }
  have haccess : nameAccess node .member ctx (Cursor.of (name.toList ++ rest)) = some (next, Cursor.of rest) := by
    have hread : anyName ctx (Cursor.of (name.toList ++ rest)) = some (name, Cursor.of rest) := by
      rw [anyName_of hat.token_eq, hat.advance_eq]
    rw [nameAccess, bind_of get_run, hat.token_eq]
    simp only
    rw [bind_of hread, accessNode, beq_eq_false_iff_ne.mpr hnode.form_ne]
    rfl
  have hlink : link? g calls node ctx c = some (some next, Cursor.of rest) := by
    rw [link?, bind_of get_run, hpoint.token_eq]
    simp only
    rw [bind_of advance_run, hpoint.advance_eq, bind_of haccess]
    rfl
  refine ⟨next, ⟨by rw [← hnode.expr_eq], rfl, rfl, Form.noConfusion⟩, links_step hlink hnode.settled ?_⟩
  have hle := Cursor.left_le rest
  have hlt := hpoint.left_lt
  simp only [List.length_append] at hlt
  omega

variable {depth : Nat} {args values : List Expr}

theorem links_call (hall : List.Forall₂ ReadsAs (Expr.printList "" args) values) (hctx : ctx.IsPlain)
    (hdepth : (Expr.argsText args).toList.length ≤ depth) (hnode : node.Holds e)
    (hc : c.Stands ('(' :: ((Expr.argsText args).toList ++ ')' :: rest))) :
    ∃ next, next.Holds (.call e values) ∧
      links (grammar (depth + 1)) true node ctx c = links (grammar (depth + 1)) true next ctx (Cursor.of rest) := by
  have hopen : c.IsAt (.punct "(") ((Expr.argsText args).toList ++ ')' :: rest) :=
    (@lexes_bracket "(" (by decide) _).isAt hc
  have hlink : link? (grammar (depth + 1)) true node ctx c =
      some (some (node.follow (.call node.expr values)), Cursor.of rest) := by
    rw [link?, bind_of get_run, hopen.token_eq]
    simp only [if_true]
    rw [bind_of (arguments_of hall hctx hdepth hc)]
    rfl
  have hform : (node.follow (.call node.expr values)).form ≠ .chain := by
    simp [Node.follow, beq_eq_false_iff_ne.mpr hnode.form_ne]
  refine ⟨_, ⟨by rw [← hnode.expr_eq]; rfl, rfl, rfl, hform⟩, links_step hlink hnode.settled ?_⟩
  have hle := Cursor.left_le rest
  have hlt := hopen.left_lt
  simp only [List.length_append, List.length_cons] at hlt
  omega

theorem links_constructed (hc : c.Stands ('(' :: rest)) : links g false node ctx c = some (node, c) := by
  have hopen : c.IsAt (.punct "(") rest := (@lexes_bracket "(" (by decide) _).isAt hc
  apply links_stop
  rw [link?, bind_of get_run, hopen.token_eq]
  rfl

/-- What stands behind `new` and the expression that it constructs. -/
def newRest (g : Grammar) (m : Mark) (callee : Node) : Reader Node := do
  settle callee
  let args ← if ← atPunct "(" then arguments g else pure []
  return { start := m, expr := .new callee.expr args }

theorem newRest_of (hall : List.Forall₂ ReadsAs (Expr.printList "" args) values) (hctx : ctx.IsPlain)
    (hdepth : (Expr.argsText args).toList.length ≤ depth) (hnode : node.Holds e) (m : Mark)
    (hc : c.Stands ('(' :: ((Expr.argsText args).toList ++ ')' :: rest))) :
    newRest (grammar (depth + 1)) m node ctx c = some ({ start := m, expr := .new e values }, Cursor.of rest) := by
  have hopen : c.IsAt (.punct "(") ((Expr.argsText args).toList ++ ')' :: rest) :=
    (@lexes_bracket "(" (by decide) _).isAt hc
  rw [newRest, bind_of (hnode.settle_eq _ _), bind_of (atPunct_run _), Cursor.isPunct, hopen.token_eq]
  simp only [beq_self_eq_true, if_true]
  rw [bind_of (arguments_of hall hctx hdepth hc), hnode.expr_eq]
  rfl

def builtSide (depth : Nat) (m : Mark) : Reader Node :=
  (constructed (grammar depth) >>= newRest (grammar (depth + 1)) m) >>= links (grammar (depth + 1)) true

theorem isName_new : Text.isName "new" = true := by decide

theorem leftSide_new (depth : Nat) (ctx : Context) {cs : List Char}
    (hopens : ∃ d cs', cs = d :: cs' ∧ startsBlank d = false)
    (hpoint : ∀ c : Cursor, c.Stands cs → c.isPunct "." = false) (hc : c.Stands ("new ".toList ++ cs)) :
    ∃ m c', c'.Stands cs ∧ leftSide (grammar (depth + 1)) ctx c = builtSide depth m ctx c' := by
  obtain ⟨d, cs, rfl, hd⟩ := hopens
  have hat : c.IsAt (.name "new" false) (' ' :: d :: cs) :=
    (lexes_name isName_new (ends_cons (by decide) _)).isAt hc
  have hnext := Cursor.stands_blank hd cs
  have hword : c.isWord "new" = true := by rw [Cursor.isWord, hat.token_eq]; rfl
  have htaken : word "new" ctx c = some ((), Cursor.of (' ' :: d :: cs)) := by rw [word_of hword, hat.advance_eq]
  have hhead : head (grammar (depth + 1)) ctx c =
      (constructed (grammar depth) >>= newRest (grammar (depth + 1)) c.here) ctx (Cursor.of (' ' :: d :: cs)) := by
    rw [head, bind_of (atWord_run _), hword, if_pos rfl, newNode, bind_of start_run, bind_of htaken,
      bind_of (skipPunct_none (hpoint _ hnext))]
    rfl
  refine ⟨c.here, Cursor.of (' ' :: d :: cs), hnext, ?_⟩
  rw [leftSide, bind_run, hhead]
  rfl

theorem builtSide_of (hall : List.Forall₂ ReadsAs (Expr.printList "" args) values) (hctx : ctx.IsPlain)
    (hdepth : (Expr.argsText args).toList.length ≤ depth) (hnode : node.Holds e) (m : Mark)
    (h : constructed (grammar depth) ctx c = links (grammar depth) false node ctx
      (Cursor.of ('(' :: ((Expr.argsText args).toList ++ ')' :: rest)))) :
    ∃ next, next.Holds (.new e values) ∧
      builtSide depth m ctx c = links (grammar (depth + 1)) true next ctx (Cursor.of rest) := by
  have hstands := Cursor.stands_of ('(' :: ((Expr.argsText args).toList ++ ')' :: rest))
  have hrest := newRest_of hall hctx hdepth hnode m hstands
  rw [links_constructed hstands] at h
  refine ⟨{ start := m, expr := .new e values }, ⟨rfl, rfl, rfl, Form.noConfusion⟩, ?_⟩
  have hnew : (constructed (grammar depth) >>= newRest (grammar (depth + 1)) m) ctx c =
      some ({ start := m, expr := .new e values }, Cursor.of rest) := by
    rw [bind_of h, hrest]
  rw [builtSide, bind_of hnew]

end Links

section Starts

variable {g : Grammar} {ctx : Context} {c : Cursor} {cs tail rest : List Char} {t : String}

/-- The links behind a name. -/
inductive ChainTail : List Char → Prop
  | nil : ChainTail []
  | name {name : String} {tail : List Char} (hname : Text.isName name = true) (h : ChainTail tail) :
      ChainTail ('.' :: (name.toList ++ tail))
  | args {args : List Expr} {tail : List Char} (hargs : ∀ a ∈ args, a.IsChain) (h : ChainTail tail) :
      ChainTail ('(' :: ((Expr.argsText args).toList ++ ')' :: tail))

inductive ChainStart : List Char → Prop
  | paren (cs : List Char) : ChainStart ('(' :: cs)
  | new (cs : List Char) : ChainStart ("new ".toList ++ cs)
  | name {name : String} {tail : List Char} (hname : IsVariableName name) (htail : ChainTail tail) :
      ChainStart (name.toList ++ tail)

theorem ChainTail.append (h : ChainTail tail) (hmore : ChainTail cs) : ChainTail (tail ++ cs) := by
  induction h with
  | nil => exact hmore
  | name hname _ ih =>
      rw [List.cons_append, List.append_assoc]
      exact .name hname ih
  | args hargs _ ih =>
      rw [List.cons_append, List.append_assoc, List.cons_append]
      exact .args hargs ih

theorem ChainStart.append (h : ChainStart cs) (htail : ChainTail tail) : ChainStart (cs ++ tail) := by
  cases h with
  | paren cs => exact .paren (cs ++ tail)
  | new cs => rw [List.append_assoc]; exact .new (cs ++ tail)
  | name hname hlinks => rw [List.append_assoc]; exact .name hname (hlinks.append htail)

theorem toList_member {object name : String} (hname : Text.isName name = true) :
    (memberText object name).toList = object.toList ++ '.' :: name.toList := by
  rw [memberText, if_pos hname, String.toList_append, String.toList_append, List.append_assoc]
  rfl

theorem chainStart_parensIf {t : String} (h : ChainStart t.toList) (wraps : Bool) :
    ChainStart (Text.parensIf wraps t).toList := by
  rw [Text.parensIf]
  split
  · rw [toList_parens]
    exact .paren _
  · exact h

theorem Expr.IsChain.chainStart {e : Expr} (he : e.IsChain) : ChainStart (e.printIn "").toList := by
  induction he with
  | @ident name hname =>
      have hstart : ChainStart (name.toList ++ []) := .name hname .nil
      rwa [List.append_nil] at hstart
  | @member base name _ hname ih =>
      have htail : ChainTail ('.' :: (name.toList ++ [])) := .name hname .nil
      rw [List.append_nil] at htail
      rw [printIn_member, toList_member hname]
      exact (chainStart_parensIf ih _).append htail
  | @call callee args _ hargs ih _ =>
      rw [printIn_call, String.toList_append, toList_parens]
      exact (chainStart_parensIf ih _).append (.args hargs .nil)
  | new =>
      rw [printIn_new]
      simp only [String.toList_append, List.append_assoc]
      exact .new _

theorem token_point {name : String} (hname : Text.isName name = true) (cs : List Char) :
    (Cursor.of ('.' :: (name.toList ++ cs))).token = .punct "." := by
  obtain ⟨d, ds, hchars, hdigit, hclass⟩ := exists_of_isName hname
  rw [hchars]
  exact ((lexes_point (hclass d (List.mem_cons_self ..)) hdigit (ds ++ cs)).isAt (Cursor.stands_of _)).token_eq

theorem token_open (cs : List Char) : (Cursor.of ('(' :: cs)).token = .punct "(" :=
  @Cursor.token_cons "(" (by decide) cs

theorem ChainTail.token_mem (h : ChainTail tail) (hne : tail ≠ []) (cs : List Char) :
    (Cursor.of (tail ++ cs)).token ∈ [Token.punct ".", .punct "("] := by
  cases h with
  | nil => exact absurd rfl hne
  | name hname _ =>
      rw [List.cons_append, List.append_assoc, token_point hname]
      exact List.mem_cons_self ..
  | args =>
      rw [List.cons_append, token_open]
      exact List.mem_cons_of_mem _ (List.mem_cons_self ..)

theorem ChainTail.follows (h : ChainTail tail) (hrest : Follows rest) : Follows (tail ++ rest) := by
  cases h with
  | nil => exact hrest
  | name hname h =>
      have hmem := (ChainTail.name hname h).token_mem (List.cons_ne_nil _ _) rest
      exact ⟨ends_cons (by decide) _, List.mem_append_left closers hmem⟩
  | args hargs h =>
      have hmem := (ChainTail.args hargs h).token_mem (List.cons_ne_nil _ _) rest
      exact ⟨ends_cons (by decide) _, List.mem_append_left closers hmem⟩

theorem ChainStart.isAt (h : ChainStart cs) (hrest : Follows rest) (hc : c.Stands (cs ++ rest)) :
    c.token = .punct "(" ∨ c.token = .name "new" false ∨
      ∃ name tail, IsVariableName name ∧ ChainTail tail ∧ c.IsAt (.name name false) (tail ++ rest) := by
  cases h with
  | paren cs => exact .inl ((@lexes_bracket "(" (by decide) _).isAt hc).token_eq
  | new cs =>
      have hat := (lexes_name isName_new (ends_cons (c := ' ') (by decide) (cs ++ rest))).isAt hc
      exact .inr (.inl hat.token_eq)
  | @name name tail hname htail =>
      rw [List.append_assoc] at hc
      have hat := (lexes_nameText hname.isNameText (htail.follows hrest).ends).isAt hc
      exact .inr (.inr ⟨name, tail, hname, htail, hat⟩)

theorem ChainStart.startsOperand_eq (h : ChainStart cs) (hrest : Follows rest) (hc : c.Stands (cs ++ rest)) :
    startsOperand c.token = true := by
  obtain htoken | htoken | ⟨name, tail, hname, -, hat⟩ := h.isAt hrest hc
  · rw [htoken]; rfl
  · rw [htoken]; rfl
  · rw [hat.token_eq]
    exact hname.startsOperand_eq

theorem ChainStart.opens (h : ChainStart cs) : ∃ d cs', cs = d :: cs' ∧ startsBlank d = false := by
  cases h with
  | paren cs => exact ⟨'(', cs, rfl, by decide⟩
  | new cs => exact ⟨'n', _, rfl, by decide⟩
  | @name name tail hname _ =>
      obtain ⟨d, ds, hchars, hd⟩ := opens_of_isNameText hname.isNameText
      exact ⟨d, ds ++ tail, by rw [hchars]; rfl, startsBlank_of_isNameStart hd⟩

theorem ChainStart.leftSide_eq (h : ChainStart cs) (depth : Nat) (ctx : Context) (hrest : Follows rest)
    (hc : c.Stands ("new ".toList ++ (cs ++ rest))) :
    ∃ m c', c'.Stands (cs ++ rest) ∧ leftSide (grammar (depth + 1)) ctx c = builtSide depth m ctx c' := by
  have hopens : ∃ d cs', cs ++ rest = d :: cs' ∧ startsBlank d = false := by
    obtain ⟨d, cs', rfl, hd⟩ := h.opens
    exact ⟨d, cs' ++ rest, rfl, hd⟩
  refine leftSide_new depth ctx hopens (fun c hc => ?_) hc
  have hoperand := h.startsOperand_eq hrest hc
  rw [Cursor.isPunct, beq_eq_false_iff_ne]
  intro heq
  rw [heq] at hoperand
  cases hoperand

end Starts

section Parameters

variable {ctx : Context} {c : Cursor} {cs rest : List Char} {depth : Nat}

theorem bindingPattern_name (g : Grammar) {name : String} {escaped : Bool} (h : c.token = .name name escaped) :
    bindingPattern g ctx c = if isVariable ctx name then some (.ident name, c.advance) else none := by
  have hpunct : ∀ p, c.isPunct p = false := fun p => by rw [Cursor.isPunct, h]; rfl
  rw [bindingPattern, bind_of (skipPunct_none (hpunct _))]
  simp only [Bool.false_eq_true, if_false]
  rw [bind_of (skipPunct_none (hpunct _))]
  simp only [Bool.false_eq_true, if_false]
  rw [bind_run, variableName_of h]
  cases isVariable ctx name <;> rfl

theorem bindingPattern_paren (g : Grammar) (h : c.token = .punct "(") : bindingPattern g ctx c = none := by
  have hread : variableName ctx c = none := by
    apply bind_none
    rw [anyName, bind_of get_run, h]
    rfl
  rw [bindingPattern, bind_of (skipPunct_none (by rw [Cursor.isPunct, h]; rfl))]
  simp only [Bool.false_eq_true, if_false]
  rw [bind_of (skipPunct_none (by rw [Cursor.isPunct, h]; rfl))]
  exact bind_none hread

theorem ChainStart.pattern_eq (h : ChainStart cs) (depth : Nat) (ctx : Context) (hrest : Follows rest)
    (hc : c.Stands (cs ++ rest)) :
    (grammar depth).pattern ctx c = none ∨
      ∃ p tail, ChainTail tail ∧ (grammar depth).pattern ctx c = some (p, Cursor.of (tail ++ rest)) := by
  cases depth with
  | zero => exact .inl rfl
  | succ depth =>
      have hfield : (grammar (depth + 1)).pattern ctx c = bindingPattern (grammar depth) ctx c := rfl
      rw [hfield]
      obtain htoken | htoken | ⟨name, tail, hname, htail, hat⟩ := h.isAt hrest hc
      · exact .inl (bindingPattern_paren _ htoken)
      · refine .inl ?_
        rw [bindingPattern_name _ htoken]
        rfl
      · rw [bindingPattern_name _ hat.token_eq, hat.advance_eq]
        split
        · exact .inr ⟨_, tail, htail, rfl⟩
        · exact .inl rfl

theorem ChainStart.parameter_eq (h : ChainStart cs) (depth : Nat) (htyped : ctx.language.typed = false)
    (hrest : Follows rest) (hc : c.Stands (cs ++ rest)) :
    parameter (grammar depth) ctx c = none ∨
      ∃ p tail, ChainTail tail ∧ parameter (grammar depth) ctx c = some (p, Cursor.of (tail ++ rest)) := by
  obtain hnone | ⟨p, tail, htail, hpattern⟩ := h.pattern_eq depth ctx hrest hc
  · exact .inl (bind_none hnone)
  · have hplain : (Cursor.of (tail ++ rest)).isPunct "=" = false :=
      isPunct_of_mem (htail.follows hrest).token_mem (by decide)
    refine .inr ⟨p, tail, htail, ?_⟩
    rw [parameter, bind_of hpattern, bind_of read_run, htyped]
    simp only [Bool.false_eq_true, if_false]
    rw [bind_of (skipPunct_none hplain)]
    rfl

def parameterEnd (params : List Pattern) : Reader (List Pattern ⊕ List Pattern) :=
  closeOrComma ")" (return .inr params) (return .inl params)

def parameterStep (g : Grammar) (params : List Pattern) : Reader (List Pattern ⊕ List Pattern) := do
  if ← skipPunct ")" then return .inr params
  if ← skipPunct "..." then
    let target ← g.pattern
    typeMark g
    punct ")"
    return .inr (params ++ [.rest target])
  let target ← parameter g
  parameterEnd (params ++ [target])

theorem parameters_eq (g : Grammar) : parameters g = iterate (parameterStep g) [] := rfl

theorem parameterEnd_none {tail : List Char} (h : ChainTail tail) (hne : tail ≠ []) (params : List Pattern) :
    parameterEnd params ctx (Cursor.of (tail ++ rest)) = none := by
  have hmem := h.token_mem hne rest
  rw [parameterEnd, closeOrComma, bind_of (skipPunct_none (isPunct_of_mem hmem (by decide)))]
  exact bind_none (punct_none (isPunct_of_mem hmem (by decide)))

theorem ChainStart.parameterStep_eq (h : ChainStart cs) (depth : Nat) (htyped : ctx.language.typed = false)
    (hrest : Closes rest) (hc : c.Stands (cs ++ rest)) (params : List Pattern) :
    parameterStep (grammar depth) params ctx c = none ∨
      ∃ p, parameterStep (grammar depth) params ctx c = parameterEnd (params ++ [p]) ctx (Cursor.of rest) := by
  have hstops := not_mem_stops (h.startsOperand_eq hrest.follows hc)
  have hother : ∀ p, Token.punct p ∈ stops → c.isPunct p = false := by
    intro p hp
    rw [Cursor.isPunct, beq_eq_false_iff_ne]
    exact fun heq => hstops (heq ▸ hp)
  have hstep : parameterStep (grammar depth) params ctx c =
      (parameter (grammar depth) >>= fun p => parameterEnd (params ++ [p])) ctx c := by
    rw [parameterStep, bind_of (skipPunct_none (hother _ (by decide)))]
    simp only [Bool.false_eq_true, if_false]
    rw [bind_of (skipPunct_none (hother _ (by decide)))]
    rfl
  rw [hstep]
  obtain hnone | ⟨p, tail, htail, hparameter⟩ := h.parameter_eq depth htyped hrest.follows hc
  · exact .inl (bind_none hnone)
  · rw [bind_of hparameter]
    by_cases hne : tail = []
    · subst hne
      exact .inr ⟨p, rfl⟩
    · exact .inl (parameterEnd_none htail hne _)

/-- The reader fails, or it ends in front of the text. -/
def FailsOrEnds {α : Type} (r : Reader α) (ctx : Context) (c : Cursor) (rest : List Char) : Prop :=
  r ctx c = none ∨ ∃ a, r ctx c = some (a, Cursor.of rest)

/-- Arguments that are chains fail as parameters, or they are taken up to their end. -/
theorem iterate_parameters {a : Expr} {args : List Expr} (ha : a.IsChain) (hargs : ∀ a ∈ args, a.IsChain)
    (htyped : ctx.language.typed = false) (hc : c.Stands ((Expr.argsText (a :: args)).toList ++ ')' :: rest))
    (params : List Pattern) : FailsOrEnds (iterate (parameterStep (grammar depth)) params) ctx c rest := by
  have hcloses : Closes (')' :: rest) := @Closes.cons ")" (by decide) rest
  induction args generalizing a c params with
  | nil =>
      have hend : ∀ params, parameterEnd params ctx (Cursor.of (')' :: rest)) = some (.inr params, Cursor.of rest) :=
        fun params => closeOrComma_close ")" (by decide)
      obtain hnone | ⟨p, hstep⟩ := ha.chainStart.parameterStep_eq depth htyped hcloses hc params
      · exact .inl (iterate_none hnone)
      · rw [hend] at hstep
        exact .inr ⟨_, iterate_stop hstep⟩
  | cons b args ih =>
      obtain ⟨hb, hargs⟩ := List.forall_mem_cons.mp hargs
      obtain ⟨d, cs, hopens, hd⟩ := ha.chainStart.opens
      have htext : (Expr.argsText (a :: b :: args)).toList ++ ')' :: rest =
          (a.printIn "").toList ++ ',' :: ' ' :: ((Expr.argsText (b :: args)).toList ++ ')' :: rest) :=
        toList_join_next _ _ _ _
      rw [htext] at hc
      have hblank : (Cursor.of (' ' :: ((Expr.argsText (b :: args)).toList ++ ')' :: rest))).Stands
          ((Expr.argsText (b :: args)).toList ++ ')' :: rest) := by
        obtain ⟨rest', hmore, -⟩ := join_split (b.printIn "") (Expr.printList "" args) hcloses
        obtain ⟨d, cs, hopens, hd⟩ := hb.chainStart.opens
        rw [Expr.argsText, Expr.printList, hmore, hopens]
        exact Cursor.stands_blank hd _
      generalize hdef : (Expr.argsText (b :: args)).toList ++ ')' :: rest = more at hc hblank
      have hend : ∀ params, parameterEnd params ctx (Cursor.of (',' :: ' ' :: more)) =
          some (.inl params, Cursor.of (' ' :: more)) :=
        fun params => closeOrComma_comma (by decide)
      have hrest : Closes (',' :: ' ' :: more) := @Closes.cons "," (by decide) _
      obtain hnone | ⟨p, hstep⟩ := ha.chainStart.parameterStep_eq depth htyped hrest hc params
      · exact .inl (iterate_none hnone)
      · rw [hend] at hstep
        rw [hopens] at hc
        rw [FailsOrEnds, iterate_step hstep (hc.left_lt hd)]
        exact ih hb hargs (hdef ▸ hblank) _

theorem arrowParameters_none {args : List Expr} (hargs : ∀ a ∈ args, a.IsChain) (htyped : ctx.language.typed = false)
    (hrest : Follows rest) (hc : c.Stands ('(' :: ((Expr.argsText args).toList ++ ')' :: rest))) :
    arrowParameters (grammar depth) true ctx c = none := by
  have hopen : punct "(" ctx c = some ((), Cursor.of ((Expr.argsText args).toList ++ ')' :: rest)) :=
    punct_bracket (by decide) hc
  have hread : ∀ ctx : Context, ctx.language.typed = false →
      FailsOrEnds (parameters (grammar depth)) ctx (Cursor.of ((Expr.argsText args).toList ++ ')' :: rest)) rest := by
    intro ctx htyped
    rw [parameters_eq]
    cases args with
    | nil =>
        have hclose : skipPunct ")" ctx (Cursor.of (')' :: rest)) = some (true, Cursor.of rest) :=
          skipPunct_bracket (by decide) (Cursor.stands_of _)
        exact .inr ⟨[], iterate_stop (bind_of hclose)⟩
    | cons a args =>
        obtain ⟨ha, hargs⟩ := List.forall_mem_cons.mp hargs
        exact iterate_parameters ha hargs htyped (Cursor.stands_of _) []
  have htypeMark : typeMark (grammar depth) ctx (Cursor.of rest) = some ((), Cursor.of rest) := by
    rw [typeMark, bind_of read_run, bind_of (atPunct_run _), htyped]
    rfl
  -- what could be a list of parameters is refused for the lack of an arrow behind it
  rw [arrowParameters, bind_of hopen]
  obtain hnone | ⟨params, hparams⟩ := hread
    { ctx with noIn := false, colonEnds := false, awaits := true || ctx.awaits } htyped
  · exact bind_none hnone
  · have hinner : enclosed (withContext (fun ctx => { ctx with awaits := true || ctx.awaits })
        (parameters (grammar depth))) ctx (Cursor.of ((Expr.argsText args).toList ++ ')' :: rest)) =
        some (params, Cursor.of rest) := hparams
    rw [bind_of hinner, bind_of read_run]
    cases ctx.colonEnds with
    | false =>
        simp only [Bool.false_eq_true, if_false]
        rw [bind_of htypeMark, bind_of get_run, hrest.isBehind.not_arrow]
        rfl
    | true =>
        simp only [if_true]
        rw [bind_of get_run, hrest.isBehind.not_arrow]
        rfl

theorem ChainStart.namedHead?_eq (h : ChainStart cs) (hctx : ctx.IsPlain) (hrest : Closes rest)
    (hc : c.Stands (cs ++ rest)) : namedHead? (grammar depth) ctx c = some (none, c) := by
  obtain htoken | htoken | ⟨name, tail, hname, htail, hat⟩ := h.isAt hrest.follows hc
  · have hvariable : standsAtVariable ctx c = false := by rw [standsAtVariable, htoken]
    exact namedHead?_none (by rw [Cursor.isWord, htoken]; rfl) (fun h => absurd h (by rw [hvariable]; decide))
  · have hvariable : standsAtVariable ctx c = false := by
      rw [standsAtVariable, htoken]
      rfl
    exact namedHead?_none (by rw [Cursor.isWord, htoken]; rfl) (fun h => by rw [hvariable] at h; cases h)
  · refine namedHead?_variable hat (htail.follows hrest.follows) fun _ hopen => ?_
    rw [Cursor.isPunct, beq_iff_eq] at hopen
    cases htail with
    | nil =>
        have hmem := hrest.token_mem
        rw [List.nil_append] at hopen
        rw [hopen] at hmem
        exact absurd hmem (by decide)
    | name hname _ =>
        rw [List.cons_append, List.append_assoc, token_point hname] at hopen
        exact absurd hopen (by decide)
    | args hargs htail =>
        rw [List.cons_append, List.append_assoc, List.cons_append]
        exact arrowParameters_none hargs hctx.untyped (htail.follows hrest.follows) (Cursor.stands_of _)

end Parameters

section Rereading

variable {ctx : Context} {c : Cursor} {rest : List Char} {depth : Nat} {e : Expr}

def Expr.LeftReads (e : Expr) : Prop := ∀ (depth : Nat) (ctx : Context) (c : Cursor) (rest : List Char),
  (e.printIn "").toList.length ≤ depth → ctx.IsPlain → Follows rest → c.Stands ((e.printIn "").toList ++ rest) →
    ∃ node, node.Holds e.rereading.alone ∧
      leftSide (grammar depth) ctx c = links (grammar depth) true node ctx (Cursor.of rest)

/-- How an expression is read alone, and behind a `new` that has found no arguments in it or has found them. -/
structure Expr.ReadsBack (e : Expr) : Prop where
  leftSide_eq : e.LeftReads
  constructed_eq : ∀ (depth : Nat) (ctx : Context) (c : Cursor) (rest : List Char),
    e.calleeText.toList.length ≤ depth → ctx.IsPlain → Follows rest → c.Stands (e.calleeText.toList ++ rest) →
      e.rereading.complete = false → ∃ node, node.Holds e.rereading.built ∧
        constructed (grammar depth) ctx c = links (grammar depth) false node ctx (Cursor.of rest)
  builtSide_eq : ∀ (depth : Nat) (ctx : Context) (c : Cursor) (rest : List Char) (m : Mark),
    e.calleeText.toList.length ≤ depth → ctx.IsPlain → Follows rest → c.Stands (e.calleeText.toList ++ rest) →
      e.rereading.complete = true → ∃ node, node.Holds e.rereading.built ∧
        builtSide depth m ctx c = links (grammar (depth + 1)) true node ctx (Cursor.of rest)

theorem Expr.LeftReads.readsAs (h : e.LeftReads) (he : e.IsChain) : ReadsAs (e.printIn "") e.rereading.alone := by
  have hstart := he.chainStart
  refine ⟨hstart.opens, fun c rest hrest hc => ?_, fun depth ctx c rest hdepth hctx hrest hc => ?_⟩
  · exact not_mem_stops (hstart.startsOperand_eq hrest.follows hc)
  · obtain ⟨node, hnode, hleft⟩ := h depth ctx c rest hdepth hctx hrest.follows hc
    rw [links_stop (link?_closer hrest.token_mem true)] at hleft
    have hoperand := hstart.startsOperand_eq hrest.follows hc
    exact ⟨node, hnode, assign_of_unary hctx (hstart.namedHead?_eq hctx hrest hc) (not_private_of_startsOperand hoperand)
      (unary_of_leftSide hctx hoperand hleft hrest.token_mem) hnode.no_params hrest.token_mem⟩

theorem forall₂_readsAs {args : List Expr} (h : ∀ a ∈ args, ReadsAs (a.printIn "") a.rereading.alone) :
    List.Forall₂ ReadsAs (Expr.printList "" args) (Expr.rereadList args) := by
  induction args with
  | nil => exact .nil
  | cons a args ih =>
      obtain ⟨ha, hargs⟩ := List.forall_mem_cons.mp h
      exact .cons ha (ih hargs)

theorem Expr.LeftReads.leftSide_callee (h : e.LeftReads) (he : e.IsChain) (hdepth : e.calleeText.toList.length ≤ depth)
    (hctx : ctx.IsPlain) (hrest : Follows rest) (hc : c.Stands (e.calleeText.toList ++ rest)) :
    ∃ node, node.Holds e.rereading.alone ∧
      leftSide (grammar depth) ctx c = links (grammar depth) true node ctx (Cursor.of rest) := by
  rw [Expr.calleeText, Text.parensIf] at hdepth hc
  split at hc
  next hloose =>
    rw [if_pos hloose] at hdepth
    obtain ⟨node, hnode, hhead⟩ := (h.readsAs he).head_parens hdepth hctx hrest hc
    exact ⟨node, hnode, bind_of hhead⟩
  next hloose =>
    rw [if_neg hloose] at hdepth
    exact h depth ctx c rest hdepth hctx hrest hc

theorem Expr.LeftReads.constructed_parens (h : e.LeftReads) (he : e.IsChain)
    (hdepth : (Text.parens (e.printIn "")).toList.length ≤ depth) (hctx : ctx.IsPlain) (hrest : Follows rest)
    (hc : c.Stands ((Text.parens (e.printIn "")).toList ++ rest)) :
    ∃ node, node.Holds e.rereading.alone ∧
      constructed (grammar depth) ctx c = links (grammar depth) false node ctx (Cursor.of rest) := by
  obtain ⟨node, hnode, hhead⟩ := (h.readsAs he).head_parens hdepth hctx hrest hc
  exact ⟨node, hnode, bind_of hhead⟩

theorem readsBack_ident {name : String} (hname : IsVariableName name) : (Expr.ident name).ReadsBack := by
  refine ⟨fun depth ctx c rest hdepth hctx hrest hc => ?_, fun depth ctx c rest hdepth hctx hrest hc _ => ?_,
    fun _ _ _ _ _ _ _ _ _ hcomplete => by cases hcomplete⟩
  · obtain ⟨node, hnode, hhead⟩ := head_variable (g := grammar depth) hname hctx hrest hc
    exact ⟨node, hnode, bind_of hhead⟩
  · obtain ⟨node, hnode, hhead⟩ := head_variable (g := grammar depth) hname hctx hrest hc
    exact ⟨node, hnode, bind_of hhead⟩

theorem follows_point {name : String} (hname : Text.isName name = true) (rest : List Char) :
    Follows ('.' :: (name.toList ++ rest)) :=
  ⟨ends_cons (by decide) _, by rw [token_point hname]; decide⟩

theorem follows_open (cs : List Char) : Follows ('(' :: cs) :=
  ⟨ends_cons (by decide) _, by rw [token_open]; decide⟩

theorem readsBack_member {base : Expr} {name : String} (he : base.IsChain) (h : base.ReadsBack)
    (hname : Text.isName name = true) : (Expr.member base (.name name)).ReadsBack := by
  have htext : ((Expr.member base (.name name)).printIn "").toList = base.calleeText.toList ++ '.' :: name.toList := by
    rw [printIn_member, toList_member hname]
    rfl
  have hcallee : (Expr.member base (.name name)).calleeText = (Expr.member base (.name name)).printIn "" := rfl
  have hlength : base.calleeText.toList.length ≤ ((Expr.member base (.name name)).printIn "").toList.length := by
    rw [htext, List.length_append]
    exact Nat.le_add_right _ _
  refine ⟨fun depth ctx c rest hdepth hctx hrest hc => ?_, fun depth ctx c rest hdepth hctx hrest hc hcomplete => ?_,
    fun depth ctx c rest m hdepth hctx hrest hc hcomplete => ?_⟩
  · rw [htext, List.append_assoc] at hc
    obtain ⟨node, hnode, hleft⟩ :=
      h.leftSide_eq.leftSide_callee he (hlength.trans hdepth) hctx (follows_point hname rest) hc
    obtain ⟨next, hnext, hlinks⟩ := links_name hnode hname hrest.ends (Cursor.stands_of _) true
    exact ⟨next, hnext, hleft.trans hlinks⟩
  · rw [hcallee, htext, List.append_assoc] at hc
    obtain ⟨node, hnode, hread⟩ :=
      h.constructed_eq depth ctx c _ (hlength.trans hdepth) hctx (follows_point hname rest) hc hcomplete
    obtain ⟨next, hnext, hlinks⟩ := links_name hnode hname hrest.ends (Cursor.stands_of _) false
    exact ⟨next, hnext, hread.trans hlinks⟩
  · rw [hcallee, htext, List.append_assoc] at hc
    obtain ⟨node, hnode, hread⟩ :=
      h.builtSide_eq depth ctx c _ m (hlength.trans hdepth) hctx (follows_point hname rest) hc hcomplete
    obtain ⟨next, hnext, hlinks⟩ := links_name hnode hname hrest.ends (Cursor.stands_of _) true
    exact ⟨next, hnext, hread.trans hlinks⟩

theorem Expr.ReadsBack.builtSide_apply {callee : Expr} {args values : List Expr} (h : callee.ReadsBack)
    (hall : List.Forall₂ ReadsAs (Expr.printList "" args) values) (hdepth : callee.calleeText.toList.length ≤ depth)
    (hargs : (Expr.argsText args).toList.length ≤ depth) (hctx : ctx.IsPlain)
    (hc : c.Stands (callee.calleeText.toList ++ '(' :: ((Expr.argsText args).toList ++ ')' :: rest))) (m : Mark) :
    ∃ node, node.Holds (callee.rereading.apply values) ∧
      builtSide depth m ctx c = links (grammar (depth + 1)) true node ctx (Cursor.of rest) := by
  rw [Rereading.apply]
  cases hcomplete : callee.rereading.complete with
  | false =>
      obtain ⟨node, hnode, hread⟩ := h.constructed_eq depth ctx c _ hdepth hctx (follows_open _) hc hcomplete
      exact builtSide_of hall hctx hargs hnode m hread
  | true =>
      obtain ⟨node, hnode, hread⟩ := h.builtSide_eq depth ctx c _ m hdepth hctx (follows_open _) hc hcomplete
      obtain ⟨next, hnext, hlinks⟩ := links_call hall hctx hargs hnode (Cursor.stands_of _)
      exact ⟨next, hnext, hread.trans hlinks⟩

theorem readsBack_call {callee : Expr} {args : List Expr} (he : callee.IsChain) (h : callee.ReadsBack)
    (hall : List.Forall₂ ReadsAs (Expr.printList "" args) (Expr.rereadList args)) :
    (Expr.call callee args).ReadsBack := by
  have htext : ((Expr.call callee args).printIn "").toList =
      callee.calleeText.toList ++ '(' :: ((Expr.argsText args).toList ++ [')']) := by
    rw [printIn_call, String.toList_append, toList_parens]
    rfl
  have hcallee : (Expr.call callee args).calleeText = (Expr.call callee args).printIn "" := rfl
  have hlength : callee.calleeText.toList.length + (Expr.argsText args).toList.length + 2 =
      ((Expr.call callee args).printIn "").toList.length := by
    rw [htext]
    simp only [List.length_append, List.length_cons, List.length_nil]
    omega
  have hsplit : ∀ rest, ((Expr.call callee args).printIn "").toList ++ rest =
      callee.calleeText.toList ++ '(' :: ((Expr.argsText args).toList ++ ')' :: rest) := by
    intro rest
    rw [htext]
    simp
  -- behind `new` a call always has the arguments that the `new` looks for
  refine ⟨fun depth ctx c rest hdepth hctx hrest hc => ?_, fun _ _ _ _ _ _ _ _ hcomplete => (by cases hcomplete),
    fun depth ctx c rest m hdepth hctx hrest hc _ => ?_⟩
  · rw [hsplit] at hc
    have hbefore : callee.calleeText.toList.length ≤ depth := by omega
    obtain ⟨node, hnode, hleft⟩ := h.leftSide_eq.leftSide_callee he hbefore hctx (follows_open _) hc
    obtain ⟨depth, rfl⟩ : ∃ d, depth = d + 1 := ⟨depth - 1, by omega⟩
    have hargs : (Expr.argsText args).toList.length ≤ depth := by omega
    obtain ⟨next, hnext, hlinks⟩ := links_call hall hctx hargs hnode (Cursor.stands_of _)
    exact ⟨next, hnext, hleft.trans hlinks⟩
  · rw [hcallee] at hdepth hc
    rw [hsplit] at hc
    exact h.builtSide_apply hall (by omega) (by omega) hctx hc m

theorem isLooseCallee_of_constructor {e : Expr} (h : e.isLooseConstructor = false) : e.isLooseCallee = false := by
  cases e with
  | call => rfl
  | _ => exact h

theorem leftReads_new {callee : Expr} {args : List Expr} (he : callee.IsChain) (h : callee.ReadsBack)
    (hall : List.Forall₂ ReadsAs (Expr.printList "" args) (Expr.rereadList args)) :
    (Expr.new callee args).LeftReads := by
  intro depth ctx c rest hdepth hctx hrest hc
  have hread : (Expr.new callee args).rereading.alone =
      if callee.isLooseConstructor then .new callee.rereading.alone (Expr.rereadList args)
      else callee.rereading.apply (Expr.rereadList args) := rfl
  have hlength : callee.builtText.toList.length + (Expr.argsText args).toList.length + 6 =
      ((Expr.new callee args).printIn "").toList.length := by
    have htext := congrArg List.length (toList_new callee args [])
    have hword : "new ".toList.length = 4 := rfl
    simp only [List.length_append, List.length_cons, List.length_nil] at htext
    omega
  obtain ⟨depth, rfl⟩ : ∃ d, depth = d + 1 := ⟨depth - 1, by omega⟩
  rw [toList_new] at hc
  obtain ⟨m, c', hc', hleft⟩ := (chainStart_parensIf he.chainStart _).leftSide_eq depth ctx (follows_open _) hc
  rw [hleft, hread]
  -- in parentheses the constructed expression is read alone, and without them as its own links allow
  cases hloose : callee.isLooseConstructor with
  | true =>
      have hparens : callee.builtText = Text.parens (callee.printIn "") := by rw [Expr.builtText, hloose]; rfl
      rw [← Expr.builtText, hparens] at hc'
      rw [hparens] at hlength
      have hinside : (Text.parens (callee.printIn "")).toList.length ≤ depth := by omega
      obtain ⟨node, hnode, hconstructed⟩ := h.leftSide_eq.constructed_parens he hinside hctx (follows_open _) hc'
      exact builtSide_of hall hctx (by omega) hnode m hconstructed
  | false =>
      have hcallee : callee.builtText = callee.calleeText := by
        rw [Expr.builtText, Expr.calleeText, isLooseCallee_of_constructor hloose, hloose]
      rw [← Expr.builtText, hcallee] at hc'
      rw [hcallee] at hlength
      exact h.builtSide_apply hall (by omega) (by omega) hctx hc' m

theorem readsBack_new {callee : Expr} {args : List Expr} (he : callee.IsChain) (h : callee.ReadsBack)
    (hargs : ∀ a ∈ args, a.IsChain) (hall : List.Forall₂ ReadsAs (Expr.printList "" args) (Expr.rereadList args)) :
    (Expr.new callee args).ReadsBack := by
  have hleft := leftReads_new he h hall
  refine ⟨hleft, fun depth ctx c rest hdepth hctx hrest hc _ => ?_,
    fun _ _ _ _ _ _ _ _ _ hcomplete => by cases hcomplete⟩
  exact hleft.constructed_parens (.new he hargs) hdepth hctx hrest hc

theorem Expr.IsChain.readsBack (he : e.IsChain) : e.ReadsBack := by
  induction he with
  | ident hname => exact readsBack_ident hname
  | member h hname ih => exact readsBack_member h ih hname
  | call h hargs ih ihargs =>
      exact readsBack_call h ih (forall₂_readsAs fun a ha => (ihargs a ha).leftSide_eq.readsAs (hargs a ha))
  | new h hargs ih ihargs =>
      exact readsBack_new h ih hargs (forall₂_readsAs fun a ha => (ihargs a ha).leftSide_eq.readsAs (hargs a ha))

theorem Expr.IsChain.readExpr_print (he : e.IsChain) : readExpr e.print = some e.rereading.alone :=
  (he.readsBack.leftSide_eq.readsAs he).readExpr_eq

end Rereading

section Kept

/-- Whether the expression is a call or starts with members of one. -/
def Expr.exposesCall : Expr → Bool
  | .member base _ => base.exposesCall
  | .call .. => true
  | _ => false

mutual

/-- No `new` in the expression constructs a member of a call. -/
def Expr.keepsNews : Expr → Bool
  | .member base (.name _) => base.keepsNews
  | .call callee args => callee.keepsNews && Expr.keepNews args
  | .new callee args => (callee.isLooseConstructor || !callee.exposesCall) && callee.keepsNews && Expr.keepNews args
  | _ => true

def Expr.keepNews : List Expr → Bool
  | [] => true
  | e :: exprs => e.keepsNews && Expr.keepNews exprs

end

variable {e : Expr}

theorem Expr.IsChain.complete_eq (he : e.IsChain) : e.rereading.complete = e.exposesCall := by
  induction he with
  | ident => rfl
  | member _ _ ih => exact ih
  | call => rfl
  | new => rfl

theorem Expr.IsChain.built_eq (he : e.IsChain) (h : e.exposesCall = false) : e.rereading.built = e.rereading.alone := by
  induction he with
  | ident => rfl
  | @member base name _ _ ih =>
      have hbase : base.rereading.built = base.rereading.alone := ih h
      have hbuilt : (Expr.member base (.name name)).rereading.built = .member base.rereading.built (.name name) := rfl
      rw [hbuilt, hbase]
      rfl
  | call => cases h
  | new => rfl

theorem rereadList_eq_iff {args : List Expr} (h : ∀ a ∈ args, (a.rereading.alone = a ↔ a.keepsNews = true)) :
    Expr.rereadList args = args ↔ Expr.keepNews args = true := by
  induction args with
  | nil => exact ⟨fun _ => rfl, fun _ => rfl⟩
  | cons a args ih =>
      obtain ⟨ha, hargs⟩ := List.forall_mem_cons.mp h
      rw [Expr.rereadList, Expr.keepNews, List.cons.injEq, Bool.and_eq_true, ha, ih hargs]

theorem Expr.IsChain.alone_eq_iff (he : e.IsChain) : e.rereading.alone = e ↔ e.keepsNews = true := by
  induction he with
  | ident => exact ⟨fun _ => rfl, fun _ => rfl⟩
  | @member base name _ _ ih =>
      have halone : (Expr.member base (.name name)).rereading.alone = .member base.rereading.alone (.name name) := rfl
      have hkeeps : (Expr.member base (.name name)).keepsNews = base.keepsNews := rfl
      rw [halone, hkeeps, ← ih]
      simp
  | @call callee args _ _ ih ihargs =>
      have halone : (Expr.call callee args).rereading.alone = .call callee.rereading.alone (Expr.rereadList args) := rfl
      have hkeeps : (Expr.call callee args).keepsNews = (callee.keepsNews && Expr.keepNews args) := rfl
      rw [halone, hkeeps, Bool.and_eq_true, ← ih, ← rereadList_eq_iff ihargs]
      simp
  | @new callee args he _ ih ihargs =>
      have hkeeps : (Expr.new callee args).keepsNews =
        ((callee.isLooseConstructor || !callee.exposesCall) && callee.keepsNews && Expr.keepNews args) := rfl
      have halone : (Expr.new callee args).rereading.alone =
          if callee.isLooseConstructor then .new callee.rereading.alone (Expr.rereadList args)
          else callee.rereading.apply (Expr.rereadList args) := rfl
      rw [halone, hkeeps, Bool.and_eq_true, Bool.and_eq_true, ← ih, ← rereadList_eq_iff ihargs]
      cases hloose : callee.isLooseConstructor with
      | true => simp
      | false =>
          rw [Rereading.apply, he.complete_eq]
          cases hexposes : callee.exposesCall with
          | true => simp
          | false => simp [he.built_eq hexposes]

/-- Printed and read back, names, accesses, calls and `new` stay what they are, unless a `new` constructs a member of a
call. The arguments of that call go to the `new` then, and the arguments of the `new` to what it has constructed. -/
theorem Expr.chain_reads_back_iff (he : e.IsChain) :
    readExpr e.print = some e.rereading.alone ∧ (readExpr e.print = some e ↔ e.keepsNews = true) := by
  refine ⟨he.readExpr_print, ?_⟩
  rw [he.readExpr_print, Option.some.injEq]
  exact he.alone_eq_iff

theorem isVariableName_letter {name : String} (h : name ∈ ["a", "f", "x"]) : IsVariableName name := by
  have hall : ∀ name ∈ ["a", "f", "x"], isNameText name.toList = true ∧ name ∉ reservedWords := by decide
  exact ⟨(hall name h).1, (hall name h).2⟩

/-- The chain `(new a.b(new (f())(x))).c(x)`. -/
def builtChain : Expr :=
  .call (.member (.new (.member (.ident "a") (.name "b")) [.new (.call (.ident "f") []) [.ident "x"]]) (.name "c"))
    [.ident "x"]

theorem isChain_x : ∀ a ∈ [Expr.ident "x"], a.IsChain := by
  rintro a (⟨⟩ | ⟨_, ⟨⟩⟩)
  exact .ident (isVariableName_letter (by decide))

theorem isChain_builtChain : builtChain.IsChain := by
  have hf : (Expr.new (.call (.ident "f") []) [.ident "x"]).IsChain :=
    .new (.call (.ident (isVariableName_letter (by decide))) (by rintro a ⟨⟩)) isChain_x
  refine .call (.member (.new (.member (.ident (isVariableName_letter (by decide))) (by decide)) ?_) (by decide)) isChain_x
  rintro a (⟨⟩ | ⟨_, ⟨⟩⟩)
  exact hf

theorem builtChain_reads_back : builtChain.IsChain ∧ builtChain.print = "(new a.b(new (f())(x))).c(x)" ∧
    readExpr builtChain.print = some builtChain :=
  ⟨isChain_builtChain, by decide, (Expr.chain_reads_back_iff isChain_builtChain).2.mpr rfl⟩

def newMember : Expr := .new (.member (.call (.ident "f") []) (.name "g")) [.ident "x"]

/-- The printed text constructs `f` instead. -/
theorem newMember_misread : newMember.IsChain ∧ newMember.print = "new f().g(x)" ∧
    readExpr newMember.print = some (.call (.member (.new (.ident "f") []) (.name "g")) [.ident "x"]) ∧
    readExpr newMember.print ≠ some newMember := by
  have hchain : newMember.IsChain :=
    .new (.member (.call (.ident (isVariableName_letter (by decide))) (by rintro a ⟨⟩)) (by decide)) isChain_x
  have hread : readExpr newMember.print = some (.call (.member (.new (.ident "f") []) (.name "g")) [.ident "x"]) :=
    hchain.readExpr_print
  refine ⟨hchain, by decide, hread, ?_⟩
  rw [hread]
  simp [newMember]

end Kept

end Memoizer
