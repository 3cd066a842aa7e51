import Mathlib
import Memoizer.Proofs.OperatorReader
import Memoizer.Source.Statement

namespace Memoizer.Source

open Operators (ends_cons toList_parens toList_brackets toList_join_cons)

def bodyContext (text : String) : Context :=
  { source := .ofString "" text, size := text.toList.length, language := {}, inFunction := true }

/-- The text as one expression. -/
def readExpr (text : String) : Option Expr :=
  let cs := text.toList
  match expression (grammar (cs.length + 1)) (bodyContext text) (Cursor.at ⟨cs, cs.length⟩) with
  | some (node, c) => if c.token = .done then some node.expr else none
  | none => none

section Cursors

variable {c : Cursor}

def Cursor.of (cs : List Char) : Cursor := Cursor.at ⟨cs, cs.length⟩

/-- The cursor is that at the beginning of the text, wherever the token before it ended. -/
def Cursor.Stands (c : Cursor) (cs : List Char) : Prop := ∃ behind, c = { Cursor.of cs with behind }

theorem Cursor.stands_of (cs : List Char) : (Cursor.of cs).Stands cs := ⟨_, rfl⟩

structure Cursor.IsAt (c : Cursor) (token : Token) (rest : List Char) : Prop where
  token_eq : c.token = token
  advance_eq : c.advance = Cursor.of rest
  newline_eq : c.newline = false
  left_lt : rest.length < c.here.left

theorem Cursor.left_le (cs : List Char) : (Cursor.of cs).here.left ≤ cs.length := by
  rw [Cursor.of, Cursor.at]
  cases skipBlanks .code false 0 cs with
  | none => exact Nat.le_refl _
  | some blanks => exact Nat.sub_le _ _

theorem Lexes.isAt {text rest : List Char} {token : Token} (h : Lexes text rest token)
    (hc : c.Stands (text ++ rest)) : c.IsAt token rest := by
  obtain ⟨behind, rfl⟩ := hc
  have hof : Cursor.of (text ++ rest) =
      ⟨token, ⟨text ++ rest, (text ++ rest).length⟩, ⟨rest, rest.length⟩, false, (text ++ rest).length⟩ := by
    simp [Cursor.of, Cursor.at, h.skipBlanks_eq, h.lex_eq, Mark.drop]
  have hlength : 0 < text.length := List.length_pos_of_ne_nil h.ne_nil
  refine ⟨by rw [hof], by rw [hof]; rfl, by rw [hof], ?_⟩
  rw [hof]
  simp only [List.length_append]
  omega

theorem Cursor.stands_blank {d : Char} (hd : startsBlank d = false) (cs : List Char) :
    (Cursor.of (' ' :: d :: cs)).Stands (d :: cs) := by
  refine ⟨(' ' :: d :: cs).length, ?_⟩
  have hhere := skipBlanks_of_start hd cs false
  have hblank : skipBlanks .code false 0 (' ' :: d :: cs) = skipBlanks .code false 1 (d :: cs) := rfl
  simp [Cursor.of, Cursor.at, hblank, hhere, Mark.drop]

theorem Cursor.Stands.left_eq {d : Char} {cs : List Char} (h : c.Stands (d :: cs)) (hd : startsBlank d = false) :
    c.here.left = cs.length + 1 := by
  obtain ⟨behind, rfl⟩ := h
  simp [Cursor.of, Cursor.at, skipBlanks_of_start hd, Mark.drop]

theorem Cursor.Stands.left_lt {d : Char} {cs more : List Char} (h : c.Stands (d :: cs ++ ',' :: ' ' :: more))
    (hd : startsBlank d = false) : (Cursor.of (' ' :: more)).here.left < c.here.left := by
  have hle := Cursor.left_le (' ' :: more)
  rw [List.cons_append] at h
  rw [h.left_eq hd]
  simp only [List.length_append, List.length_cons] at hle ⊢
  omega

end Cursors

section Running

variable {α β : Type} {ctx : Context} {c c' : Cursor} {p : String}

theorem bind_run (r : Reader α) (f : α → Reader β) (ctx : Context) (c : Cursor) :
    (r >>= f) ctx c = (r ctx c).bind fun p => f p.1 ctx p.2 := rfl

theorem bind_of {r : Reader α} {f : α → Reader β} {a : α} (h : r ctx c = some (a, c')) :
    (r >>= f) ctx c = f a ctx c' := by
  rw [bind_run, h, Option.bind_some]

theorem bind_none {r : Reader α} {f : α → Reader β} (h : r ctx c = none) : (r >>= f) ctx c = none := by
  rw [bind_run, h, Option.bind_none]

theorem get_run : (get : Reader Cursor) ctx c = some (c, c) := rfl

theorem read_run : (read : Reader Context) ctx c = some (ctx, c) := rfl

theorem start_run : start ctx c = some (c.here, c) := rfl

theorem advance_run : advance ctx c = some ((), c.advance) := rfl

theorem atPunct_run (p : String) : atPunct p ctx c = some (c.isPunct p, c) := rfl

theorem atWord_run (w : String) : atWord w ctx c = some (c.isWord w, c) := rfl

theorem skipPunct_run (p : String) : skipPunct p ctx c = some (c.isPunct p, if c.isPunct p then c.advance else c) := by
  rw [skipPunct, bind_of (atPunct_run p)]
  cases c.isPunct p <;> rfl

theorem skipPunct_of (h : c.isPunct p = true) : skipPunct p ctx c = some (true, c.advance) := by
  rw [skipPunct_run, h, if_pos rfl]

theorem skipPunct_none (h : c.isPunct p = false) : skipPunct p ctx c = some (false, c) := by
  rw [skipPunct_run, h, if_neg Bool.false_ne_true]

theorem punct_of (h : c.isPunct p = true) : punct p ctx c = some ((), c.advance) := by
  rw [punct, bind_of (skipPunct_of h)]
  rfl

theorem punct_none (h : c.isPunct p = false) : punct p ctx c = none := by
  rw [punct, bind_of (skipPunct_none h)]
  rfl

theorem skipWord_run (w : String) : skipWord w ctx c = some (c.isWord w, if c.isWord w then c.advance else c) := by
  rw [skipWord, bind_of (atWord_run w)]
  cases c.isWord w <;> rfl

theorem word_of {w : String} (h : c.isWord w = true) : word w ctx c = some ((), c.advance) := by
  rw [word, bind_of (skipWord_run w), h]
  rfl

theorem anyName_of {name : String} {escaped : Bool} (h : c.token = .name name escaped) :
    anyName ctx c = some (name, c.advance) := by
  rw [anyName, bind_of get_run, h]
  rfl

theorem variableName_of {name : String} {escaped : Bool} (h : c.token = .name name escaped) :
    variableName ctx c = if isVariable ctx name then some (name, c.advance) else none := by
  rw [variableName, bind_of (anyName_of h), bind_of read_run]
  cases isVariable ctx name <;> rfl

theorem isPunct_of_mem {tokens : List Token} (h : c.token ∈ tokens) (hp : Token.punct p ∉ tokens) :
    c.isPunct p = false := by
  rw [Cursor.isPunct, beq_eq_false_iff_ne]
  exact fun heq => hp (heq ▸ h)

theorem attempt_run (r : Reader α) (ctx : Context) (c : Cursor) :
    attempt r ctx c = (((r ctx c).bind fun p => some (some p.1, p.2)) <|> some (none, c)) := rfl

theorem attempt_of {r : Reader α} {a : α} (h : r ctx c = some (a, c')) : attempt r ctx c = some (some a, c') := by
  rw [attempt_run, h]
  rfl

theorem attempt_none {r : Reader α} (h : r ctx c = none) : attempt r ctx c = some (none, c) := by
  rw [attempt_run, h]
  rfl

theorem iterate_step {step : α → Reader (α ⊕ β)} {a a' : α} (h : step a ctx c = some (.inl a', c'))
    (hlt : c'.here.left < c.here.left) : iterate step a ctx c = iterate step a' ctx c' := by
  rw [iterate, h]
  exact if_pos hlt

theorem iterate_none {step : α → Reader (α ⊕ β)} {a : α} (h : step a ctx c = none) : iterate step a ctx c = none := by
  rw [iterate, h]

theorem iterate_stop {step : α → Reader (α ⊕ β)} {a : α} {b : β} (h : step a ctx c = some (.inr b, c')) :
    iterate step a ctx c = some (b, c') := by
  rw [iterate, h]

end Running

section Levels

/-- The tokens that end an operand: nothing binds to it from behind them. -/
def closers : List Token := [.done, .punct ")", .punct "]", .punct ","]

structure Context.IsPlain (ctx : Context) : Prop where
  untyped : ctx.language.typed = false
  awaits_eq : ctx.awaits = false
  yields_eq : ctx.yields = false

variable {g : Grammar} {ctx : Context} {c c' : Cursor} {node : Node}

theorem links_stop {calls : Bool} (h : link? g calls node ctx c = some (none, c)) :
    links g calls node ctx c = some (node, c) :=
  iterate_stop (bind_of h)

theorem links_step {calls : Bool} {next : Node} (h : link? g calls node ctx c = some (some next, c'))
    (hsettled : node.pending = false) (hlt : c'.here.left < c.here.left) :
    links g calls node ctx c = links g calls next ctx c' := by
  refine iterate_step ?_ hlt
  rw [bind_of h]
  simp only [settle, hsettled, Bool.false_eq_true, if_false]
  rfl

theorem link?_closer (h : c.token ∈ closers) (calls : Bool) : link? g calls node ctx c = some (none, c) := by
  rw [link?, bind_of get_run]
  simp only [closers, List.mem_cons, List.not_mem_nil, or_false] at h
  rcases h with h | h | h | h <;> simp only [h] <;> rfl

theorem stepped_of (h : leftSide g ctx c = some (node, c')) (hc : c'.token ∈ closers) :
    stepped g ctx c = some (node, c') := by
  have hstep : atStep ctx c' = some (false, c') := by
    rw [atStep, bind_of (atPunct_run _), bind_of (atPunct_run _), isPunct_of_mem hc (by decide),
      isPunct_of_mem hc (by decide)]
    rfl
  rw [stepped, bind_of h, bind_of hstep]
  rfl

def startsOperand : Token → Bool
  | .name text escaped => (unaryOperator? (.name text escaped)).isNone
  | .number _ => true
  | .string _ => true
  | .punct p => p == "(" || p == "["
  | _ => false

theorem unary_of (hctx : ctx.IsPlain) (hc : startsOperand c.token = true) : unary g ctx c = stepped g ctx c := by
  have hstep : atStep ctx c = some (false, c) := by
    rw [atStep, bind_of (atPunct_run _), bind_of (atPunct_run _), Cursor.isPunct, Cursor.isPunct]
    cases htoken : c.token with
    | punct p =>
        rw [htoken, startsOperand, Bool.or_eq_true, beq_iff_eq, beq_iff_eq] at hc
        rcases hc with rfl | rfl <;> rfl
    | _ => rfl
  have hoperator : unaryOperator? c.token = none := by
    cases htoken : c.token with
    | name text escaped =>
        rw [htoken, startsOperand, Option.isNone_iff_eq_none] at hc
        exact hc
    | punct p =>
        rw [htoken, startsOperand, Bool.or_eq_true, beq_iff_eq, beq_iff_eq] at hc
        rcases hc with rfl | rfl <;> rfl
    | _ => rfl
  rw [unary, bind_of start_run, bind_of hstep]
  simp only [Bool.false_eq_true, if_false]
  rw [bind_of get_run]
  simp only [hoperator]
  rw [bind_of read_run, bind_of (atWord_run _)]
  simp only [hctx.awaits_eq, Bool.false_and, Bool.false_eq_true, if_false]

theorem operand_of (hc : ∀ text, c.token ≠ .privateName text) (least : Nat) : operand g least ctx c = unary g ctx c := by
  rw [operand, bind_of start_run, bind_of get_run]
  cases htoken : c.token with
  | privateName text => exact absurd htoken (hc text)
  | _ => rfl

theorem binary_of (hctx : ctx.IsPlain) {least : Nat} (h : operand g least ctx c = some (node, c'))
    (hc : c'.token ∈ closers) : binary g least ctx c = some (node, c') := by
  have hcast : atCast ctx c' = some (false, c') := by
    rw [atCast, bind_of get_run, bind_of read_run, hctx.untyped]
    rfl
  have hoperator : operator? ctx c'.token = none := by
    simp only [closers, List.mem_cons, List.not_mem_nil, or_false] at hc
    rcases hc with hc | hc | hc | hc <;> rw [hc] <;> rfl
  rw [binary, bind_of h]
  apply iterate_stop
  rw [bind_of hcast, Bool.and_false]
  simp only [Bool.false_eq_true, if_false]
  rw [bind_of read_run, bind_of get_run, hoperator]
  rfl

theorem conditional_of (h : binary g 1 ctx c = some (node, c')) (hc : c'.token ∈ closers) :
    conditional g ctx c = some (node, c') := by
  rw [conditional, bind_of h, bind_of (skipPunct_none (isPunct_of_mem hc (by decide)))]
  rfl

theorem assignment_of (hc : c.token ∈ closers) : assignment g node ctx c = some (node, c) := by
  rw [assignment, bind_of get_run]
  simp only [closers, List.mem_cons, List.not_mem_nil, or_false] at hc
  rcases hc with hc | hc | hc | hc <;> rw [hc] <;> rfl

theorem assign_of (hctx : ctx.IsPlain) (hhead : namedHead? g ctx c = some (none, c))
    (h : conditional g ctx c = some (node, c')) (hparams : node.params = none) (hc : c'.token ∈ closers) :
    assign g ctx c = some (node, c') := by
  rw [assign, bind_of start_run, bind_of read_run, bind_of (atWord_run _), hctx.yields_eq, Bool.false_and]
  simp only [Bool.false_eq_true, if_false]
  rw [bind_of hhead]
  simp only
  rw [bind_of h, hparams]
  exact assignment_of hc

/-- In front of a token that ends it, an operand is the whole expression. -/
theorem assign_of_unary (hctx : ctx.IsPlain) (hhead : namedHead? g ctx c = some (none, c))
    (hprivate : ∀ text, c.token ≠ .privateName text) (h : unary g ctx c = some (node, c')) (hparams : node.params = none)
    (hc : c'.token ∈ closers) : assign g ctx c = some (node, c') := by
  have hoperand : operand g 1 ctx c = some (node, c') := by
    rw [operand_of hprivate]
    exact h
  exact assign_of hctx hhead (conditional_of (binary_of hctx hoperand hc) hc) hparams hc

theorem unary_of_leftSide (hctx : ctx.IsPlain) (hstart : startsOperand c.token = true)
    (h : leftSide g ctx c = some (node, c')) (hc : c'.token ∈ closers) : unary g ctx c = some (node, c') := by
  rw [unary_of hctx hstart]
  exact stepped_of h hc

theorem not_private_of_startsOperand {token : Token} (h : startsOperand token = true) (text : String) :
    token ≠ .privateName text := by
  rintro rfl
  cases h

end Levels

section Operands

def followers : List Token := .punct "." :: .punct "(" :: closers

/-- The text ends a name in front of it and goes on with a follower. -/
structure Follows (rest : List Char) : Prop where
  ends : Ends rest
  token_mem : (Cursor.of rest).token ∈ followers

theorem Cursor.token_cons {op : String} (hop : op ∈ ["(", ")", "[", "]", ","]) (rest : List Char) :
    (Cursor.of (op.toList ++ rest)).token = .punct op :=
  ((lexes_bracket hop rest).isAt (Cursor.stands_of _)).token_eq

inductive Closes : List Char → Prop
  | nil : Closes []
  | cons {op : String} (hop : op ∈ [")", "]", ","]) (rest : List Char) : Closes (op.toList ++ rest)

theorem Closes.ends {rest : List Char} (h : Closes rest) : Ends rest := by
  cases h with
  | nil => rintro c ⟨⟩
  | cons hop rest =>
      simp only [List.mem_cons, List.not_mem_nil, or_false] at hop
      rcases hop with rfl | rfl | rfl <;> exact ends_cons (by decide) rest

theorem Closes.token_mem {rest : List Char} (h : Closes rest) : (Cursor.of rest).token ∈ closers := by
  cases h with
  | nil => decide
  | @cons op hop rest =>
      have hclass : ∀ op ∈ [")", "]", ","], op ∈ ["(", ")", "[", "]", ","] ∧ Token.punct op ∈ closers := by decide
      rw [Cursor.token_cons (hclass op hop).1]
      exact (hclass op hop).2

theorem Closes.follows {rest : List Char} (h : Closes rest) : Follows rest :=
  ⟨h.ends, List.mem_cons_of_mem _ (List.mem_cons_of_mem _ h.token_mem)⟩

/-- The node is that of an expression that is complete and no optional chain. -/
structure Node.Holds (node : Node) (e : Expr) : Prop where
  expr_eq : node.expr = e
  settled : node.pending = false
  no_params : node.params = none
  form_ne : node.form ≠ .chain

theorem Node.Holds.settle_eq {node : Node} {e : Expr} (h : node.Holds e) (ctx : Context) (c : Cursor) :
    settle node ctx c = some ((), c) := by
  rw [settle, h.settled]
  rfl

def stops : List Token := [.punct ")", .punct "]", .punct ",", .punct "..."]

theorem not_mem_stops {token : Token} (h : startsOperand token = true) : token ∉ stops := by
  intro hmem
  simp only [stops, List.mem_cons, List.not_mem_nil, or_false] at hmem
  rcases hmem with rfl | rfl | rfl | rfl <;> exact absurd h (by decide)

/-- The text is read as the expression, whatever closes it. -/
structure ReadsAs (t : String) (e : Expr) : Prop where
  opens : ∃ d cs, t.toList = d :: cs ∧ startsBlank d = false
  token_ne : ∀ (c : Cursor) (rest : List Char), Closes rest → c.Stands (t.toList ++ rest) → c.token ∉ stops
  assign_eq : ∀ (depth : Nat) (ctx : Context) (c : Cursor) (rest : List Char), t.toList.length ≤ depth → ctx.IsPlain →
    Closes rest → c.Stands (t.toList ++ rest) →
      ∃ node, node.Holds e ∧ assign (grammar depth) ctx c = some (node, Cursor.of rest)

variable {ctx : Context} {c : Cursor} {t : String} {e : Expr} {rest : List Char}

theorem ReadsAs.value_eq (h : ReadsAs t e) {depth : Nat} (hdepth : t.toList.length ≤ depth) (hctx : ctx.IsPlain)
    (hrest : Closes rest) (hc : c.Stands (t.toList ++ rest)) :
    (grammar (depth + 1)).value ctx c = some (e, Cursor.of rest) := by
  obtain ⟨node, hnode, hassign⟩ := h.assign_eq depth ctx c rest hdepth hctx hrest hc
  have hstep : (grammar (depth + 1)).assign ctx c = some (node, Cursor.of rest) := hassign
  rw [Grammar.value, bind_of hstep, bind_of (hnode.settle_eq _ _), hnode.expr_eq]
  rfl

theorem ReadsAs.expression_eq (h : ReadsAs t e) {depth : Nat} (hdepth : t.toList.length ≤ depth) (hctx : ctx.IsPlain)
    (hrest : Closes rest) (hcomma : (Cursor.of rest).isPunct "," = false) (hc : c.Stands (t.toList ++ rest)) :
    ∃ node, node.Holds e ∧ expression (grammar depth) ctx c = some (node, Cursor.of rest) := by
  obtain ⟨node, hnode, hassign⟩ := h.assign_eq depth ctx c rest hdepth hctx hrest hc
  refine ⟨node, hnode, ?_⟩
  rw [expression, bind_of hassign, bind_of (hnode.settle_eq _ _), bind_of (atPunct_run _), hcomma]
  rfl

theorem ReadsAs.readExpr_eq (h : ReadsAs t e) : readExpr t = some e := by
  have hctx : (bodyContext t).IsPlain := ⟨rfl, rfl, rfl⟩
  have hstart : (Cursor.of t.toList).Stands (t.toList ++ []) := by
    rw [List.append_nil]
    exact Cursor.stands_of _
  obtain ⟨node, hnode, hexpression⟩ := h.expression_eq (Nat.le_succ _) hctx Closes.nil (by decide) hstart
  rw [Cursor.of] at hexpression
  have hdone : (Cursor.of []).token = .done := rfl
  simp only [readExpr, hexpression, if_pos hdone, hnode.expr_eq]

structure Cursor.IsBehind (c : Cursor) : Prop where
  not_word : ∀ w, c.isWord w = false
  not_arrow : atArrow c = false
  not_variable : ∀ ctx, standsAtVariable ctx c = false

theorem Follows.isBehind (h : Follows rest) : (Cursor.of rest).IsBehind := by
  have hmem := h.token_mem
  simp only [followers, closers, List.mem_cons, List.not_mem_nil, or_false] at hmem
  constructor
  · intro w
    rw [Cursor.isWord]
    rcases hmem with h | h | h | h | h | h <;> rw [h] <;> rfl
  · rw [atArrow, Cursor.isPunct]
    rcases hmem with h | h | h | h | h | h <;> rw [h] <;> rfl
  · intro ctx
    rw [standsAtVariable]
    rcases hmem with h | h | h | h | h | h <;> rw [h]

structure IsVariableName (name : String) : Prop where
  isNameText : isNameText name.toList = true
  not_reserved : name ∉ reservedWords

theorem IsVariableName.isVariable_eq {name : String} (h : IsVariableName name) (hctx : ctx.IsPlain) :
    isVariable ctx name = true := by
  simp [isVariable, hctx.awaits_eq, hctx.yields_eq, h.not_reserved]

theorem IsVariableName.startsOperand_eq {name : String} (h : IsVariableName name) :
    startsOperand (.name name false) = true := by
  have hword : name ∉ ["delete", "void", "typeof"] := by
    intro hmem
    have hreserved : ∀ word ∈ ["delete", "void", "typeof"], word ∈ reservedWords := by decide
    exact h.not_reserved (hreserved name hmem)
  rw [startsOperand, unaryOperator?, if_neg (by simpa using hword)]
  rfl

theorem opens_of_isNameText {name : String} (h : isNameText name.toList = true) :
    ∃ d cs, name.toList = d :: cs ∧ isNameStart d = true := by
  cases hchars : name.toList with
  | nil => rw [hchars] at h; cases h
  | cons d cs =>
      rw [hchars, isNameText, Bool.and_eq_true] at h
      exact ⟨d, cs, rfl, h.1⟩

theorem function?_none {g : Grammar} {name : String} (hname : name ≠ "function")
    (hc : c.IsAt (.name name false) rest) (hrest : Follows rest) : function? g ctx c = some (none, c) := by
  have hasync : atAsyncFunction ctx c = some (false, c) := by
    rw [atAsyncFunction, bind_of get_run]
    simp only [hc.advance_eq, hrest.isBehind.not_word, Bool.and_false, Bool.false_and]
    rfl
  have hword : skipWord "function" ctx c = some (false, c) := by
    have hfound : c.isWord "function" = false := by simp [Cursor.isWord, hc.token_eq, hname]
    rw [skipWord_run, hfound, if_neg Bool.false_ne_true]
  rw [function?, bind_of start_run, bind_of hasync]
  simp only [Bool.false_eq_true, if_false]
  rw [bind_of hword]
  rfl

theorem head_eq_primary {g : Grammar} {token : Token} (hat : c.IsAt token rest) (hnew : token ≠ .name "new" false) :
    head g ctx c = primary g ctx c := by
  have hword : c.isWord "new" = false := by
    rw [Cursor.isWord, hat.token_eq, beq_eq_false_iff_ne]
    exact hnew
  rw [head, bind_of (atWord_run _), hword]
  rfl

theorem primary_word {g : Grammar} {word : String} (hat : c.IsAt (.name word false) rest) :
    primary g ctx c = wordNode g c.here word ctx c := by
  rw [primary, bind_of start_run, bind_of get_run, hat.token_eq]
  rfl

theorem head_variable {g : Grammar} {name : String} (hname : IsVariableName name) (hctx : ctx.IsPlain)
    (hrest : Follows rest) (hc : c.Stands (name.toList ++ rest)) :
    ∃ node, node.Holds (.ident name) ∧ head g ctx c = some (node, Cursor.of rest) := by
  have hat := (lexes_nameText hname.isNameText hrest.ends).isAt hc
  have hne : ∀ word ∈ reservedWords, name ≠ word := fun word hword heq => hname.not_reserved (heq ▸ hword)
  have hnew : Token.name name false ≠ .name "new" false := fun h => hne "new" (by decide) (Token.name.inj h).1
  have hany : variableName ctx c = some (name, Cursor.of rest) := by
    rw [variableName_of hat.token_eq, hname.isVariable_eq hctx, hat.advance_eq, if_pos rfl]
  refine ⟨{ start := c.here, expr := .ident name, target := .simple (.ident name) },
    ⟨rfl, rfl, rfl, Form.noConfusion⟩, ?_⟩
  rw [head_eq_primary hat hnew, primary_word hat, wordNode, bind_of (function?_none (hne _ (by decide)) hat hrest)]
  · simp only
    rw [nameNode, bind_of hany]
    rfl
  -- the words that are read in a way of their own are all reserved
  all_goals exact hne _ (by decide)

theorem namedHead?_none {g : Grammar} (hasync : c.isWord "async" = false)
    (hvariable : standsAtVariable ctx c = true → atArrow c.advance = false) : namedHead? g ctx c = some (none, c) := by
  have harrow : (standsAtVariable ctx c && atArrow c.advance) = false := by
    cases hstands : standsAtVariable ctx c with
    | false => rfl
    | true => exact hvariable hstands
  rw [namedHead?, bind_of read_run, bind_of get_run]
  simp only [hasync, harrow, Bool.false_and, Bool.false_eq_true, if_false]
  rfl

/-- A variable in front of a follower starts no arrow function, unless it is `async` and the list behind it could be that
of the parameters. -/
theorem namedHead?_variable {g : Grammar} {name : String} (hc : c.IsAt (.name name false) rest) (hrest : Follows rest)
    (hcall : name = "async" → (Cursor.of rest).isPunct "(" = true → arrowParameters g true ctx (Cursor.of rest) = none) :
    namedHead? g ctx c = some (none, c) := by
  have hbehind := hrest.isBehind
  -- only behind `async` is a list read as parameters first
  by_cases hasync : name = "async"
  · have hword : c.isWord "async" = true := by rw [Cursor.isWord, hc.token_eq, hasync]; rfl
    rw [namedHead?, bind_of read_run, bind_of get_run]
    simp only [hword, hc.advance_eq, hbehind.not_variable, hbehind.not_arrow, Bool.and_false, Bool.false_and,
      Bool.false_eq_true, if_false, Bool.true_and]
    cases hopen : (Cursor.of rest).isPunct "(" with
    | false => simp only [Bool.and_false, Bool.false_eq_true, if_false]; rfl
    | true =>
        split
        · apply attempt_none
          rw [bind_of advance_run, hc.advance_eq]
          exact bind_none (hcall hasync hopen)
        · rfl
  · have hword : c.isWord "async" = false := by simp [Cursor.isWord, hc.token_eq, hasync]
    exact namedHead?_none hword fun _ => by rw [hc.advance_eq, hbehind.not_arrow]

theorem namedHead?_closed {g : Grammar} {name : String} (hat : c.IsAt (.name name false) rest) (hrest : Closes rest) :
    namedHead? g ctx c = some (none, c) := by
  refine namedHead?_variable hat hrest.follows fun _ hopen => ?_
  rw [isPunct_of_mem hrest.token_mem (by decide)] at hopen
  cases hopen

theorem namedHead?_other {g : Grammar} {token : Token} (hat : c.IsAt token rest)
    (hname : ∀ text escaped, token ≠ .name text escaped) : namedHead? g ctx c = some (none, c) := by
  have hvariable : standsAtVariable ctx c = false := by
    rw [standsAtVariable, hat.token_eq]
    cases token with
    | name text escaped => exact absurd rfl (hname text escaped)
    | _ => rfl
  have hword : c.isWord "async" = false := by
    rw [Cursor.isWord, hat.token_eq, beq_eq_false_iff_ne]
    exact hname _ _
  exact namedHead?_none hword fun h => by rw [hvariable] at h; cases h

theorem mayBeHead_of (hctx : ctx.IsPlain) (hrest : Follows rest) :
    mayBeHead ctx (Cursor.of rest) = some (false, Cursor.of rest) := by
  rw [mayBeHead, bind_of read_run, bind_of get_run, hrest.isBehind.not_arrow, hctx.untyped]
  rfl

theorem Context.IsPlain.enclosed (h : ctx.IsPlain) : { ctx with noIn := false, colonEnds := false }.IsPlain :=
  ⟨h.untyped, h.awaits_eq, h.yields_eq⟩

/-- Parentheses around an expression are dropped. -/
theorem ReadsAs.head_parens (h : ReadsAs t e) {depth : Nat} (hdepth : (Text.parens t).toList.length ≤ depth)
    (hctx : ctx.IsPlain) (hrest : Follows rest) (hc : c.Stands ((Text.parens t).toList ++ rest)) :
    ∃ node, node.Holds e ∧ head (grammar depth) ctx c = some (node, Cursor.of rest) := by
  rw [toList_parens] at hdepth hc
  simp only [List.length_cons, List.length_append, List.length_nil] at hdepth
  rw [List.cons_append, List.append_assoc, List.singleton_append] at hc
  obtain ⟨depth, rfl⟩ : ∃ d, depth = d + 1 := ⟨depth - 1, by omega⟩
  have hat : c.IsAt (.punct "(") (t.toList ++ ')' :: rest) := (@lexes_bracket "(" (by decide) _).isAt hc
  have hclose : (Cursor.of (')' :: rest)).IsAt (.punct ")") rest :=
    (@lexes_bracket ")" (by decide) _).isAt (Cursor.stands_of _)
  have hcloses : Closes (')' :: rest) := @Closes.cons ")" (by decide) rest
  have hinner : t.toList.length ≤ depth := by omega
  obtain ⟨node, hnode, hexpression⟩ := h.expression_eq hinner hctx.enclosed hcloses
    (by rw [Cursor.isPunct, hclose.token_eq]; rfl) (Cursor.stands_of _)
  have hread : (enclosed (grammar (depth + 1)).expression) ctx (Cursor.of (t.toList ++ ')' :: rest)) =
      some (node, Cursor.of (')' :: rest)) := hexpression
  have hopen : punct "(" ctx c = some ((), Cursor.of (t.toList ++ ')' :: rest)) := by
    rw [punct_of (by rw [Cursor.isPunct, hat.token_eq]; rfl), hat.advance_eq]
  have hend : punct ")" ctx (Cursor.of (')' :: rest)) = some ((), Cursor.of rest) := by
    rw [punct_of (by rw [Cursor.isPunct, hclose.token_eq]; rfl), hclose.advance_eq]
  let result : Node := { start := c.here, expr := node.expr, target := node.target.inParens }
  have hparenthesized : parenthesized (grammar (depth + 1)) ctx c = some (result, Cursor.of rest) := by
    rw [parenthesized, bind_of start_run, bind_of hopen, bind_of hread, bind_of hend,
      beq_eq_false_iff_ne.mpr hnode.form_ne]
    rfl
  have hattempt : attempt (parenthesized (grammar (depth + 1))) ctx c = some (some result, Cursor.of rest) :=
    attempt_of hparenthesized
  refine ⟨result, ⟨hnode.expr_eq, rfl, rfl, Form.noConfusion⟩, ?_⟩
  rw [head_eq_primary hat (by decide), primary, bind_of start_run, bind_of get_run, hat.token_eq]
  simp only
  rw [parens, bind_of get_run, bind_of hattempt]
  simp only
  rw [bind_of (mayBeHead_of hctx hrest)]
  rfl

/-- The text is read as the expression, whatever closes it, with no operator and no link in it. -/
structure HeadReads (t : String) (e : Expr) : Prop where
  opens : ∃ d cs, t.toList = d :: cs ∧ startsBlank d = false
  starts : ∀ (c : Cursor) (rest : List Char), Closes rest → c.Stands (t.toList ++ rest) → startsOperand c.token = true
  namedHead?_eq : ∀ (g : Grammar) (ctx : Context) (c : Cursor) (rest : List Char), Closes rest →
    c.Stands (t.toList ++ rest) → namedHead? g ctx c = some (none, c)
  head_eq : ∀ (depth : Nat) (ctx : Context) (c : Cursor) (rest : List Char), t.toList.length ≤ depth → ctx.IsPlain →
    Closes rest → c.Stands (t.toList ++ rest) →
      ∃ node, node.Holds e ∧ head (grammar depth) ctx c = some (node, Cursor.of rest)

theorem HeadReads.unary_eq (h : HeadReads t e) {depth : Nat} (hdepth : t.toList.length ≤ depth) (hctx : ctx.IsPlain)
    (hrest : Closes rest) (hc : c.Stands (t.toList ++ rest)) :
    ∃ node, node.Holds e ∧ unary (grammar depth) ctx c = some (node, Cursor.of rest) := by
  obtain ⟨node, hnode, hhead⟩ := h.head_eq depth ctx c rest hdepth hctx hrest hc
  have hleft : leftSide (grammar depth) ctx c = some (node, Cursor.of rest) := by
    rw [leftSide, bind_of hhead, links_stop (link?_closer hrest.token_mem true)]
  exact ⟨node, hnode, unary_of_leftSide hctx (h.starts c rest hrest hc) hleft hrest.token_mem⟩

theorem HeadReads.readsAs (h : HeadReads t e) : ReadsAs t e := by
  refine ⟨h.opens, fun c rest hrest hc => not_mem_stops (h.starts c rest hrest hc),
    fun depth ctx c rest hdepth hctx hrest hc => ?_⟩
  obtain ⟨node, hnode, hunary⟩ := h.unary_eq hdepth hctx hrest hc
  exact ⟨node, hnode, assign_of_unary hctx (h.namedHead?_eq _ _ _ _ hrest hc)
    (not_private_of_startsOperand (h.starts c rest hrest hc)) hunary hnode.no_params hrest.token_mem⟩

theorem headReads_variable {name : String} (hname : IsVariableName name) : HeadReads name (.ident name) := by
  obtain ⟨d, cs, hchars, hd⟩ := opens_of_isNameText hname.isNameText
  have hat : ∀ (c : Cursor) (rest : List Char), Closes rest → c.Stands (name.toList ++ rest) →
      c.IsAt (.name name false) rest :=
    fun c rest hrest hc => (lexes_nameText hname.isNameText hrest.ends).isAt hc
  refine ⟨⟨d, cs, hchars, startsBlank_of_isNameStart hd⟩, fun c rest hrest hc => ?_, fun g ctx c rest hrest hc => ?_,
    fun depth ctx c rest _ hctx hrest hc => head_variable hname hctx hrest.follows hc⟩
  · rw [(hat c rest hrest hc).token_eq]
    exact hname.startsOperand_eq
  · exact namedHead?_closed (hat c rest hrest hc) hrest

theorem HeadReads.minus (h : HeadReads t e) (htail : ∀ d ∈ t.toList.head?, d ∉ punctuatorTails) :
    ReadsAs ("-" ++ t) (.unary "-" e) := by
  have htext : ("-" ++ t).toList = '-' :: t.toList := by rw [String.toList_append]; rfl
  obtain ⟨d, cs, ht, hd⟩ := h.opens
  have hat : ∀ (c : Cursor) (rest : List Char), c.Stands (("-" ++ t).toList ++ rest) →
      c.IsAt (.punct "-") (t.toList ++ rest) := by
    intro c rest hc
    rw [htext, List.cons_append] at hc
    rw [ht] at htail hc ⊢
    have hsign : "-" ∈ punctuators := by decide
    have hlexes := lexes_punct hsign (by rintro d ⟨⟩; decide) (by decide) (htail d rfl) (cs ++ rest)
    exact hlexes.isAt hc
  refine ⟨⟨'-', t.toList, htext, by decide⟩, fun c rest hrest hc => ?_, fun depth ctx c rest hdepth hctx hrest hc => ?_⟩
  · rw [(hat c rest hc).token_eq]
    decide
  · have hminus := hat c rest hc
    rw [htext, List.length_cons] at hdepth
    obtain ⟨depth, rfl⟩ : ∃ d, depth = d + 1 := ⟨depth - 1, by omega⟩
    obtain ⟨node, hnode, hread⟩ := h.unary_eq (Nat.le_of_succ_le_succ hdepth) hctx hrest (Cursor.stands_of _)
    have hinner : (grammar (depth + 1)).unary ctx (Cursor.of (t.toList ++ rest)) = some (node, Cursor.of rest) := hread
    have hstep : atStep ctx c = some (false, c) := by
      rw [atStep, bind_of (atPunct_run _), bind_of (atPunct_run _), Cursor.isPunct, Cursor.isPunct, hminus.token_eq]
      rfl
    have hunary : unary (grammar (depth + 1)) ctx c =
        some ({ start := c.here, expr := .unary "-" e, form := .unary }, Cursor.of rest) := by
      rw [unary, bind_of start_run, bind_of hstep]
      simp only [Bool.false_eq_true, if_false]
      have hoperator : unaryOperator? (.punct "-") = some "-" := by decide
      rw [bind_of get_run, hminus.token_eq]
      simp only [hoperator]
      rw [bind_of advance_run, hminus.advance_eq, bind_of hinner, bind_of (hnode.settle_eq _ _), hnode.expr_eq]
      rfl
    have hname : namedHead? (grammar (depth + 1)) ctx c = some (none, c) := by
      refine namedHead?_none (by rw [Cursor.isWord, hminus.token_eq]; rfl) fun hvariable => ?_
      rw [standsAtVariable, hminus.token_eq] at hvariable
      cases hvariable
    refine ⟨_, ⟨rfl, rfl, rfl, Form.noConfusion⟩, assign_of_unary hctx hname ?_ hunary rfl hrest.token_mem⟩
    rw [hminus.token_eq]
    exact fun _ => Token.noConfusion

end Operands

section Lists

variable {ctx : Context} {c : Cursor} {rest : List Char}

theorem skipPunct_bracket {op : String} (hop : op ∈ ["(", ")", "[", "]", ","]) (hc : c.Stands (op.toList ++ rest)) :
    skipPunct op ctx c = some (true, Cursor.of rest) := by
  have hat := (lexes_bracket hop rest).isAt hc
  rw [skipPunct_of (by rw [Cursor.isPunct, hat.token_eq, beq_self_eq_true]), hat.advance_eq]

theorem punct_bracket {op : String} (hop : op ∈ ["(", ")", "[", "]", ","]) (hc : c.Stands (op.toList ++ rest)) :
    punct op ctx c = some ((), Cursor.of rest) := by
  rw [punct, bind_of (skipPunct_bracket hop hc)]
  rfl

theorem skipPunct_other (op : String) {p : String} (hop : op ∈ ["(", ")", "[", "]", ","]) (hne : op ≠ p)
    (hc : c.Stands (op.toList ++ rest)) : skipPunct p ctx c = some (false, c) := by
  have hat := (lexes_bracket hop rest).isAt hc
  exact skipPunct_none (by simp [Cursor.isPunct, hat.token_eq, hne])

theorem ReadsAs.skipPunct_none {t : String} {e : Expr} (h : ReadsAs t e) (hrest : Closes rest)
    (hc : c.Stands (t.toList ++ rest)) {p : String} (hp : Token.punct p ∈ stops) :
    skipPunct p ctx c = some (false, c) := by
  apply Source.skipPunct_none
  rw [Cursor.isPunct, beq_eq_false_iff_ne]
  intro heq
  exact h.token_ne c rest hrest hc (heq ▸ hp)

/-- Behind a comma and a blank the next item starts. -/
theorem ReadsAs.stands_blank {t : String} {e : Expr} (h : ReadsAs t e) (rest : List Char) :
    (Cursor.of (' ' :: (t.toList ++ rest))).Stands (t.toList ++ rest) := by
  obtain ⟨d, cs, ht, hd⟩ := h.opens
  rw [ht]
  exact Cursor.stands_blank hd _

def argument (g : Grammar) : Reader Expr := do
  if ← skipPunct "..." then return .spread (← g.value)
  g.value

theorem arguments_eq (g : Grammar) : arguments g = punct "(" >>= fun _ => enclosed (commaList ")" (argument g)) := rfl

variable {t : String} {texts : List String} {e : Expr} {values : List Expr} {depth : Nat}

theorem ReadsAs.argument_eq (h : ReadsAs t e) (hdepth : t.toList.length ≤ depth) (hctx : ctx.IsPlain)
    (hrest : Closes rest) (hc : c.Stands (t.toList ++ rest)) :
    argument (grammar (depth + 1)) ctx c = some (e, Cursor.of rest) := by
  rw [argument, bind_of (h.skipPunct_none hrest hc (by decide))]
  exact h.value_eq hdepth hctx hrest hc

theorem toList_join_next (t u : String) (texts : List String) (rest : List Char) :
    (Text.join ", " (t :: u :: texts)).toList ++ rest =
      t.toList ++ ',' :: ' ' :: ((Text.join ", " (u :: texts)).toList ++ rest) := by
  rw [toList_join_cons _ _ _ (List.cons_ne_nil _ _)]
  simp

theorem length_le_join {sep t : String} {texts : List String} (h : t ∈ texts) :
    t.toList.length ≤ (Text.join sep texts).toList.length := by
  induction texts with
  | nil => cases h
  | cons u texts ih =>
      cases texts with
      | nil => rw [List.mem_singleton.mp h]; rfl
      | cons v texts =>
          rw [toList_join_cons _ _ _ (List.cons_ne_nil _ _)]
          simp only [List.length_append]
          rcases List.mem_cons.mp h with rfl | h
          · omega
          · have hle := ih h
            omega

theorem join_split (t : String) (texts : List String) (hrest : Closes rest) :
    ∃ rest', (Text.join ", " (t :: texts)).toList ++ rest = t.toList ++ rest' ∧ Closes rest' := by
  cases texts with
  | nil => exact ⟨rest, rfl, hrest⟩
  | cons u texts => exact ⟨_, toList_join_next t u texts rest, @Closes.cons "," (by decide) _⟩

def closeOrComma {α : Type} (close : String) (closed next : Reader α) : Reader α := do
  if ← skipPunct close then closed
  else
    punct ","
    next

section

variable {α : Type} {closed next : Reader α}

theorem closeOrComma_close (close : String) (hclose : close ∈ [")", "]"]) :
    closeOrComma close closed next ctx (Cursor.of (close.toList ++ rest)) = closed ctx (Cursor.of rest) := by
  have hop : close ∈ ["(", ")", "[", "]", ","] := by
    simp only [List.mem_cons, List.not_mem_nil, or_false] at hclose ⊢
    tauto
  exact bind_of (skipPunct_bracket hop (Cursor.stands_of _))

theorem closeOrComma_comma {close : String} (hclose : "," ≠ close) :
    closeOrComma close closed next ctx (Cursor.of (',' :: rest)) = next ctx (Cursor.of rest) := by
  have hgoes : skipPunct close ctx (Cursor.of (',' :: rest)) = some (false, Cursor.of (',' :: rest)) :=
    skipPunct_other "," (by decide) hclose (Cursor.stands_of _)
  have hcomma : punct "," ctx (Cursor.of (',' :: rest)) = some ((), Cursor.of rest) :=
    punct_bracket (by decide) (Cursor.stands_of _)
  rw [closeOrComma, bind_of hgoes]
  exact bind_of hcomma

end

def commaStep {α : Type} (close : String) (item : Reader α) (items : List α) : Reader (List α ⊕ List α) := do
  let items := items ++ [← item]
  closeOrComma close (return .inr items) do
    if ← skipPunct close then return .inr items
    return .inl items

theorem commaList_eq {α : Type} (close : String) (item : Reader α) :
    commaList close item =
      skipPunct close >>= fun found => if found then pure [] else iterate (commaStep close item) [] := rfl

/-- The arguments behind those that have been read. -/
theorem iterate_arguments (h : ReadsAs t e) (hall : List.Forall₂ ReadsAs texts values) (hctx : ctx.IsPlain)
    (hdepth : ∀ s ∈ t :: texts, s.toList.length ≤ depth)
    (hc : c.Stands ((Text.join ", " (t :: texts)).toList ++ ')' :: rest)) (done : List Expr) :
    iterate (commaStep ")" (argument (grammar (depth + 1)))) done ctx c =
      some (done ++ e :: values, Cursor.of rest) := by
  have hcloses : Closes (')' :: rest) := @Closes.cons ")" (by decide) rest
  induction hall generalizing t e done c with
  | nil =>
      have ht : t.toList.length ≤ depth := hdepth t (List.mem_cons_self ..)
      apply iterate_stop
      rw [commaStep, bind_of (h.argument_eq ht hctx hcloses hc)]
      exact closeOrComma_close ")" (by decide)
  | @cons u v texts values hu hall ih =>
      obtain ⟨ht, hdepth⟩ := List.forall_mem_cons.mp hdepth
      obtain ⟨rest', hmore, hrest'⟩ := join_split u texts hcloses
      rw [toList_join_next] at hc
      generalize hdef : (Text.join ", " (u :: texts)).toList ++ ')' :: rest = more at hmore hc
      have hblank : (Cursor.of (' ' :: more)).Stands more := by
        rw [hmore]
        exact hu.stands_blank rest'
      have hitem : argument (grammar (depth + 1)) ctx c = some (e, Cursor.of (',' :: ' ' :: more)) :=
        h.argument_eq ht hctx (@Closes.cons "," (by decide) (' ' :: more)) hc
      have hnext : skipPunct ")" ctx (Cursor.of (' ' :: more)) = some (false, Cursor.of (' ' :: more)) :=
        hu.skipPunct_none hrest' (hmore ▸ hblank) (by decide)
      have hstep : commaStep ")" (argument (grammar (depth + 1))) done ctx c =
          some (.inl (done ++ [e]), Cursor.of (' ' :: more)) := by
        rw [commaStep, bind_of hitem, closeOrComma_comma (by decide), bind_of hnext]
        rfl
      have hlt : (Cursor.of (' ' :: more)).here.left < c.here.left := by
        obtain ⟨d, cs, ht, hd⟩ := h.opens
        rw [ht] at hc
        exact hc.left_lt hd
      rw [iterate_step hstep hlt, ih hu hdepth (hdef ▸ hblank), List.append_assoc]
      rfl

theorem arguments_of (hall : List.Forall₂ ReadsAs texts values) (hctx : ctx.IsPlain)
    (hdepth : (Text.join ", " texts).toList.length ≤ depth)
    (hc : c.Stands ('(' :: ((Text.join ", " texts).toList ++ ')' :: rest))) :
    arguments (grammar (depth + 1)) ctx c = some (values, Cursor.of rest) := by
  have hopen : punct "(" ctx c = some ((), Cursor.of ((Text.join ", " texts).toList ++ ')' :: rest)) :=
    punct_bracket (by decide) hc
  rw [arguments_eq, bind_of hopen, enclosed, withContext, commaList_eq]
  cases hall with
  | nil =>
      have hclose : ∀ ctx, skipPunct ")" ctx (Cursor.of (')' :: rest)) = some (true, Cursor.of rest) :=
        fun ctx => skipPunct_bracket (by decide) (Cursor.stands_of _)
      exact bind_of (hclose _)
  | @cons t e texts values h hall =>
      obtain ⟨rest', hinside, hrest'⟩ := join_split t texts (@Closes.cons ")" (by decide) rest)
      rw [bind_of (h.skipPunct_none hrest' (hinside ▸ Cursor.stands_of _) (by decide))]
      exact iterate_arguments h hall hctx.enclosed (fun _ hs => (length_le_join hs).trans hdepth) (Cursor.stands_of _) []

end Lists

end Memoizer.Source
