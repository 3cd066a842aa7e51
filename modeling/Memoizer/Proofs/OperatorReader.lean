import Mathlib
import Memoizer.Proofs.Tokens
import Memoizer.Source.Expression
import Memoizer.Tree.Print

namespace Memoizer

open Source

/-- How operators group that stand side by side. The conditional counts as `?`. -/
structure Grouping where
  strength : String → Nat
  rightward : String → Bool

/-- Whether the operand between two operators goes to the first. -/
def Grouping.keeps (g : Grouping) (first second : String) : Bool :=
  g.strength second < g.strength first || (g.strength second == g.strength first && !g.rightward first)

namespace Operators

/-- What is open in front of the text to be read. -/
inductive Frame
  | unary (op : String)
  | binary (op : String) (lhs : Expr)
  | test (test : Expr)
  | branch (test yes : Expr)
  | paren
  | index (object : Expr)
  | args (callee : Expr) (done : List Expr)

inductive Mode
  | wants
  | has (value : Expr)
  | named (object : Expr)

structure State where
  stack : List Frame
  mode : Mode

/-- Closes the operators in front of an operand, as far as they keep it. -/
def settle (keep : String → Bool) : List Frame → Expr → List Frame × Expr
  | .unary op :: stack, e => settle keep stack (.unary op e)
  | .binary op lhs :: stack, e =>
    if keep op then settle keep stack (.binary op lhs e) else (.binary op lhs :: stack, e)
  | .branch test yes :: stack, e =>
    if keep "?" then settle keep stack (.conditional test yes e) else (.branch test yes :: stack, e)
  | stack, e => (stack, e)

def settleAll : List Frame → Expr → List Frame × Expr := settle fun _ => true

def binaryOperator? : Token → Option String
  | .punct op => if (Source.strength op).isSome then some op else none
  | .name op false => if ["instanceof", "in"].contains op then some op else none
  | _ => none

def operand? (stack : List Frame) : Token → Option State
  | .punct "(" => some ⟨.paren :: stack, .wants⟩
  | .punct ")" =>
    match stack with
    | .args callee [] :: stack => some ⟨stack, .has (.call callee [])⟩
    | _ => none
  | .number x => some ⟨stack, .has (.literal (.number x))⟩
  | .string s => some ⟨stack, .has (.literal (.string s))⟩
  | .name "null" false => some ⟨stack, .has (.literal .null)⟩
  | .name "true" false => some ⟨stack, .has (.literal (.bool true))⟩
  | .name "false" false => some ⟨stack, .has (.literal (.bool false))⟩
  | .name text _ => if reservedWords.contains text then none else some ⟨stack, .has (.ident text)⟩
  | _ => none

def close? (stack : List Frame) (e : Expr) : Token → Option State
  | .punct ":" =>
    match stack with
    | .test test :: stack => some ⟨.branch test e :: stack, .wants⟩
    | _ => none
  | .punct ")" =>
    match stack with
    | .paren :: stack => some ⟨stack, .has e⟩
    | .args callee done :: stack => some ⟨stack, .has (.call callee (done ++ [e]))⟩
    | _ => none
  | .punct "," =>
    match stack with
    | .args callee done :: stack => some ⟨.args callee (done ++ [e]) :: stack, .wants⟩
    | _ => none
  | .punct "]" =>
    match stack with
    | .index object :: stack => some ⟨stack, .has (.member object (.computed e))⟩
    | _ => none
  | _ => none

def behind? (g : Grouping) (stack : List Frame) (e : Expr) : Token → Option State
  | .punct "." => some ⟨stack, .named e⟩
  | .punct "(" => some ⟨.args e [] :: stack, .wants⟩
  | .punct "[" => some ⟨.index e :: stack, .wants⟩
  | .punct "?" =>
    let (stack, test) := settle (g.keeps · "?") stack e
    some ⟨.test test :: stack, .wants⟩
  | token =>
    let (stack, e) := settleAll stack e
    close? stack e token

def step (g : Grouping) (s : State) (token : Token) : Option State :=
  match s.mode with
  | .wants =>
    match unaryOperator? token with
    | some op => some ⟨.unary op :: s.stack, .wants⟩
    | none => operand? s.stack token
  | .has e =>
    match binaryOperator? token with
    | some op =>
      let (stack, lhs) := settle (g.keeps · op) s.stack e
      some ⟨.binary op lhs :: stack, .wants⟩
    | none => behind? g s.stack e token
  | .named object =>
    match token with
    | .name text _ => some ⟨s.stack, .has (.member object (.name text))⟩
    | _ => none

def finish (s : State) : Option Expr :=
  match s.mode with
  | .has e =>
    match settleAll s.stack e with
    | ([], e) => some e
    | _ => none
  | _ => none

def run (g : Grouping) (s : State) (cs : List Char) : Option Expr :=
  match _h : nextToken cs with
  | none => none
  | some (token, here, rest) =>
    if token = .done then finish s
    else if _hlt : rest.length < here.length then (step g s token).bind fun s => run g s rest
    else none
termination_by cs.length
decreasing_by exact Nat.lt_of_lt_of_le _hlt (length_here_le _h)

def read (g : Grouping) (text : String) : Option Expr := run g ⟨[], .wants⟩ text.toList

section Run

variable {g : Grouping} {s s' : State} {text rest : List Char} {token : Token}

theorem run_token (h : Lexes text rest token) (hstep : step g s token = some s') :
    run g s (text ++ rest) = run g s' rest := by
  have hdone : token ≠ .done := by
    rintro rfl
    rw [step] at hstep
    split at hstep <;> cases hstep
  have hlt : rest.length < (text ++ rest).length := by
    rw [List.length_append]
    exact Nat.lt_add_of_pos_left (List.length_pos_of_ne_nil h.ne_nil)
  rw [run, h.nextToken_eq]
  simp only [if_neg hdone, dif_pos hlt, hstep, Option.bind_some]

theorem run_blank (g : Grouping) (s : State) (cs : List Char) : run g s (' ' :: cs) = run g s cs := by
  rw [run, run, nextToken_blank]

theorem run_nil (g : Grouping) (s : State) : run g s [] = finish s := by
  rw [run]
  rfl

end Run

def isPlain : List Frame → Bool
  | .unary _ :: _ | .binary .. :: _ | .branch .. :: _ => false
  | _ => true

theorem settle_of_isPlain {stack : List Frame} (h : isPlain stack = true) (keep : String → Bool) (e : Expr) :
    settle keep stack e = (stack, e) := by
  cases stack with
  | nil => rfl
  | cons frame stack =>
      cases frame with
      | unary | binary | branch => cases h
      | test | paren | index | args => rfl

/-- The operators that are still open when the text of an expression has been read. -/
def pending : Expr → List Frame
  | .unary op _ => [.unary op]
  | .binary op lhs _ => [.binary op lhs]
  | .conditional test yes _ => [.branch test yes]
  | _ => []

/-- The operand that stands last in the text of an expression. -/
def last : Expr → Expr
  | .unary _ operand => operand
  | .binary _ _ rhs => rhs
  | .conditional _ _ no => no
  | e => e

theorem settleAll_pending {stack : List Frame} (h : isPlain stack = true) (e : Expr) :
    settleAll (pending e ++ stack) (last e) = (stack, e) := by
  cases e <;> exact settle_of_isPlain h _ _

theorem step_close {op : String} (hop : op ∈ [":", ")", "]", ","]) (g : Grouping) (stack : List Frame) (e : Expr) :
    step g ⟨stack, .has e⟩ (.punct op) = close? (settleAll stack e).1 (settleAll stack e).2 (.punct op) := by
  simp only [List.mem_cons, List.not_mem_nil, or_false] at hop
  rcases hop with rfl | rfl | rfl | rfl <;> rfl

end Operators

/-- The expressions made of names, plain literals, member accesses, calls and operators. -/
inductive Expr.Elementary : Expr → Prop
  | ident {name : String} (hname : Text.isName name = true) (hword : name ∉ reservedWords) : Elementary (.ident name)
  | null : Elementary (.literal .null)
  | bool (value : Bool) : Elementary (.literal (.bool value))
  | string (value : String) : Elementary (.literal (.string value))
  | number {x : Number} {n : Nat} (hsign : x.isNegative = false) (hwhole : x.wholePart? = some n)
      (hn : n < Number.tenPow 15) : Elementary (.literal (.number x))
  | member {object : Expr} {name : String} (hobject : Elementary object) (hname : Text.isName name = true) :
      Elementary (.member object (.name name))
  | index {object index : Expr} (hobject : Elementary object) (hindex : Elementary index) :
      Elementary (.member object (.computed index))
  | call {callee : Expr} {args : List Expr} (hcallee : Elementary callee) (hargs : ∀ a ∈ args, Elementary a) :
      Elementary (.call callee args)
  | unary {op : String} {operand : Expr} (hop : op ∈ ["+", "-", "~", "!", "delete", "void", "typeof"])
      (hoperand : Elementary operand) : Elementary (.unary op operand)
  | binary {op : String} {lhs rhs : Expr} (hop : (Source.strength op).isSome = true) (hlhs : Elementary lhs)
      (hrhs : Elementary rhs) : Elementary (.binary op lhs rhs)
  | conditional {test yes no : Expr} (htest : Elementary test) (hyes : Elementary yes) (hno : Elementary no) :
      Elementary (.conditional test yes no)

namespace Operators

variable {g : Grouping}

def opensPlainly (op : String) : Bool := op.toList.head?.all fun d => d != '.' && d != '/'

theorem ne_of_opensPlainly {op : String} (h : opensPlainly op = true) : ∀ d ∈ op.toList.head?, d ≠ '.' ∧ d ≠ '/' := by
  intro d hd
  rw [opensPlainly, hd] at h
  simpa using h

theorem mem_of_strength {op : String} (h : (Source.strength op).isSome = true) :
    op ∈ ["instanceof", "in"] ∨ op = "/" ∨
      op ∈ punctuators ∧ opensPlainly op = true ∧ op ≠ "?." := by
  have hall : ∀ op ∈ ["??", "||", "&&", "|", "^", "&", "==", "!=", "===", "!==", "<", ">", "<=", ">=", "instanceof", "in",
      "<<", ">>", ">>>", "+", "-", "*", "/", "%", "**"], op ∈ ["instanceof", "in"] ∨ op = "/" ∨
      op ∈ punctuators ∧ opensPlainly op = true ∧ op ≠ "?." := by decide
  apply hall
  unfold Source.strength at h
  split at h <;> simp at h ⊢

theorem ends_cons {c : Char} (h : c ∈ [' ', '(', ')', '[', ']', ',', '.']) (rest : List Char) : Ends (c :: rest) := by
  have hall : ∀ c ∈ [' ', '(', ')', '[', ']', ',', '.'], isNamePart c = false ∧ c ≠ '\\' := by simp [isNamePart]
  rintro d ⟨⟩
  exact hall c h

theorem binary_token {op : String} (hop : (Source.strength op).isSome = true) (rest : List Char) :
    ∃ token, Lexes op.toList (' ' :: rest) token ∧ binaryOperator? token = some op := by
  rcases mem_of_strength hop with hword | rfl | ⟨hmem, hfirst, hchain⟩
  · have hname : ∀ op ∈ ["instanceof", "in"], Text.isName op = true := by decide
    refine ⟨.name op false, lexes_name (hname op hword) (ends_cons (by decide) rest), ?_⟩
    rw [binaryOperator?, if_pos (by simpa using hword)]
  · exact ⟨.punct "/", lexes_slash rest, rfl⟩
  · refine ⟨.punct op, lexes_punct hmem (ne_of_opensPlainly hfirst) hchain (by decide) rest, ?_⟩
    rw [binaryOperator?, if_pos hop]

/-- The text starts like an operand, so that no sign in front goes on with it. -/
def OpensOperand (cs : List Char) : Prop := ∃ c rest, cs = c :: rest ∧ c ∉ punctuatorTails

theorem unary_token {op : String} (hop : op ∈ ["+", "-", "~", "!", "delete", "void", "typeof"]) {operand : String}
    (hopens : OpensOperand operand.toList) (rest : List Char) :
    ∃ token, unaryOperator? token = some op ∧ ∀ s s', step g s token = some s' →
      run g s ((unaryText op operand).toList ++ rest) = run g s' (operand.toList ++ rest) := by
  obtain ⟨c, cs, hoperand, hc⟩ := hopens
  have hsplit : op ∈ ["+", "-", "~", "!"] ∨ op ∈ ["delete", "void", "typeof"] := by
    simpa [or_assoc] using hop
  rcases hsplit with hsign | hword
  · have hclass : ∀ op ∈ ["+", "-", "~", "!"], op.toList.all Char.isAlpha = false ∧ op ∈ punctuators ∧
        opensPlainly op = true ∧ op ≠ "?." ∧ unaryOperator? (.punct op) = some op := by
      decide
    obtain ⟨halpha, hmem, hfirst, hchain, htoken⟩ := hclass op hsign
    refine ⟨.punct op, htoken, fun s s' hstep => ?_⟩
    have hlexes := lexes_punct hmem (ne_of_opensPlainly hfirst) hchain hc (cs ++ rest)
    rw [unaryText, halpha, if_neg Bool.false_ne_true, String.toList_append, List.append_assoc, hoperand, List.cons_append]
    exact run_token hlexes hstep
  · have hclass : ∀ op ∈ ["delete", "void", "typeof"], op.toList.all Char.isAlpha = true ∧ Text.isName op = true ∧
        unaryOperator? (.name op false) = some op := by decide
    obtain ⟨halpha, hname, htoken⟩ := hclass op hword
    refine ⟨.name op false, htoken, fun s s' hstep => ?_⟩
    have hlexes := lexes_name hname (ends_cons (c := ' ') (by decide) (operand.toList ++ rest))
    have htext : (unaryText op operand).toList ++ rest = op.toList ++ ' ' :: (operand.toList ++ rest) := by
      rw [unaryText, halpha, if_pos rfl, String.toList_append, String.toList_append]
      simp
    rw [htext, run_token hlexes hstep, run_blank]

theorem toList_parens (s : String) : (Text.parens s).toList = '(' :: (s.toList ++ [')']) := by
  simp only [Text.parens, String.toList_append]
  rfl

theorem toList_brackets (s : String) : (Text.brackets s).toList = '[' :: (s.toList ++ [']']) := by
  simp only [Text.brackets, String.toList_append]
  rfl

theorem opensOperand_append {cs : List Char} (h : OpensOperand cs) (cs' : List Char) : OpensOperand (cs ++ cs') := by
  obtain ⟨c, rest, rfl, hc⟩ := h
  exact ⟨c, rest ++ cs', rfl, hc⟩

theorem opensOperand_parensIf {wrap : Bool} {s : String} (h : wrap = false → OpensOperand s.toList) :
    OpensOperand (Text.parensIf wrap s).toList := by
  cases wrap with
  | true =>
      rw [Text.parensIf, if_pos rfl, toList_parens]
      exact ⟨'(', _, rfl, by decide⟩
  | false => exact h rfl

section Printed

variable (object callee index lhs rhs test yes no : Expr) (name op : String) (args : List Expr)

theorem printIn_member : (Expr.member object (.name name)).printIn "" =
    memberText (Text.parensIf object.isLooseCallee (object.printIn "")) name := rfl

theorem printIn_index : (Expr.member object (.computed index)).printIn "" =
    Text.parensIf object.isLooseCallee (object.printIn "") ++ Text.brackets (index.printIn "") := rfl

theorem printIn_call : (Expr.call callee args).printIn "" =
    Text.parensIf callee.isLooseCallee (callee.printIn "") ++ Text.parens (Text.join ", " (Expr.printList "" args)) := rfl

theorem printIn_binary : (Expr.binary op lhs rhs).printIn "" =
    Text.parensIf lhs.isCompound (lhs.printIn "") ++ " " ++ op ++ " " ++
      Text.parensIf rhs.isCompound (rhs.printIn "") := rfl

theorem printIn_conditional : (Expr.conditional test yes no).printIn "" =
    Text.parensIf test.isCompound (test.printIn "") ++ " ? " ++ Text.parensIf yes.isCompound (yes.printIn "") ++
      " : " ++ Text.parensIf no.isCompound (no.printIn "") := rfl

end Printed

theorem opensOperand_print {e : Expr} (he : e.Elementary) (h : e.isCompound = false) :
    OpensOperand (e.printIn "").toList := by
  induction he with
  | ident hname =>
      obtain ⟨c, cs, hlist, _, hchars⟩ := exists_of_isName hname
      exact ⟨c, cs, hlist, not_mem_tails_of_isNameChar (hchars c (List.mem_cons_self ..))⟩
  | null => exact ⟨'n', _, rfl, by decide⟩
  | bool value =>
      cases value with
      | true => exact ⟨'t', _, rfl, by decide⟩
      | false => exact ⟨'f', _, rfl, by decide⟩
  | string value => exact ⟨'"', _, toList_quote value, by decide⟩
  | @number x n hsign hwhole hn =>
      have htext : (Expr.printIn "" (.literal (.number x))).toList = Nat.toDigits 10 n := format_whole hsign hwhole hn
      cases hdigits : Nat.toDigits 10 n with
      | nil => exact absurd hdigits Nat.toDigits_ne_nil
      | cons c cs =>
          have hc : c.isDigit = true := isDigit_of_mem (hdigits ▸ List.mem_cons_self ..)
          exact ⟨c, cs, htext.trans hdigits, not_mem_tails_of_isNameChar (by simp [Text.isNameChar, Char.isAlphanum, hc])⟩
  | @member object name _ hname ih =>
      have hobject := opensOperand_parensIf fun hloose => ih (Expr.isCompound_eq_false hloose)
      rw [printIn_member, memberText, if_pos hname, String.toList_append, String.toList_append, List.append_assoc]
      exact opensOperand_append hobject _
  | index _ _ ih =>
      have hobject := opensOperand_parensIf fun hloose => ih (Expr.isCompound_eq_false hloose)
      rw [printIn_index, String.toList_append]
      exact opensOperand_append hobject _
  | call _ _ ih =>
      have hcallee := opensOperand_parensIf fun hloose => ih (Expr.isCompound_eq_false hloose)
      rw [printIn_call, String.toList_append]
      exact opensOperand_append hcallee _
  | unary | binary | conditional => cases h

/-- Read where an operand is wanted, the text of the expression leaves its last operand behind the operators that are
still open. -/
def Passes (g : Grouping) (e : Expr) : Prop :=
  ∀ stack rest, (e.isCompound = true → isPlain stack = true) → Ends rest →
    (e.isLooseCallee = true → rest.head? ≠ some '.') →
    run g ⟨stack, .wants⟩ ((e.printIn "").toList ++ rest) = run g ⟨pending e ++ stack, .has (last e)⟩ rest

theorem pending_of_not_isCompound {e : Expr} (h : e.isCompound = false) : pending e = [] ∧ last e = e := by
  cases e with
  | unary | binary | conditional => cases h
  | _ => exact ⟨rfl, rfl⟩

namespace Passes

variable {e : Expr} (h : Passes g e)

include h

theorem run_close {stack : List Frame} {op : String} {s : State} (hplain : isPlain stack = true)
    (hop : op ∈ [")", "]", ","]) (hclose : close? stack e (.punct op) = some s) (rest : List Char) :
    run g ⟨stack, .wants⟩ ((e.printIn "").toList ++ (op.toList ++ rest)) = run g s rest := by
  have hclass : op ∈ ["(", ")", "[", "]", ","] ∧ op ∈ [":", ")", "]", ","] ∧ ∃ c, op.toList = [c] ∧
      c ∈ [' ', '(', ')', '[', ']', ',', '.'] ∧ c ≠ '.' := by
    simp only [List.mem_cons, List.not_mem_nil, or_false] at hop
    rcases hop with rfl | rfl | rfl
    · exact ⟨by decide, by decide, ')', rfl, by decide, by decide⟩
    · exact ⟨by decide, by decide, ']', rfl, by decide, by decide⟩
    · exact ⟨by decide, by decide, ',', rfl, by decide, by decide⟩
  obtain ⟨hbracket, hends, c, hlist, hc, hpoint⟩ := hclass
  have hstep : step g ⟨pending e ++ stack, .has (last e)⟩ (.punct op) = some s := by
    rw [step_close hends, settleAll_pending hplain]
    exact hclose
  calc run g ⟨stack, .wants⟩ ((e.printIn "").toList ++ (op.toList ++ rest))
      = run g ⟨pending e ++ stack, .has (last e)⟩ (op.toList ++ rest) := by
        apply h _ _ (fun _ => hplain)
        · rw [hlist]
          exact ends_cons hc rest
        · rw [hlist]
          exact fun _ heq => hpoint (Option.some.inj heq)
    _ = run g s rest := run_token (lexes_bracket hbracket rest) hstep

theorem run_parens (stack : List Frame) (rest : List Char) :
    run g ⟨stack, .wants⟩ ((Text.parens (e.printIn "")).toList ++ rest) = run g ⟨stack, .has e⟩ rest := by
  have htext : (Text.parens (e.printIn "")).toList ++ rest =
      "(".toList ++ ((e.printIn "").toList ++ (")".toList ++ rest)) := by
    rw [toList_parens]
    simp
  calc run g ⟨stack, .wants⟩ ((Text.parens (e.printIn "")).toList ++ rest)
      = run g ⟨.paren :: stack, .wants⟩ ((e.printIn "").toList ++ (")".toList ++ rest)) := by
        rw [htext]
        exact run_token (lexes_bracket (by decide) _) rfl
    _ = run g ⟨stack, .has e⟩ rest := h.run_close rfl (by decide) rfl rest

theorem run_operand (stack : List Frame) {rest : List Char} (hrest : Ends rest) (hpoint : rest.head? ≠ some '.') :
    run g ⟨stack, .wants⟩ ((Text.parensIf e.isCompound (e.printIn "")).toList ++ rest) = run g ⟨stack, .has e⟩ rest := by
  cases hcompound : e.isCompound with
  | true => exact h.run_parens stack rest
  | false =>
      obtain ⟨hpending, hlast⟩ := pending_of_not_isCompound hcompound
      have hrun := h stack rest (fun hc => by rw [hcompound] at hc; cases hc) hrest fun _ => hpoint
      rwa [hpending, hlast] at hrun

theorem run_operand_blank (stack : List Frame) (rest : List Char) :
    run g ⟨stack, .wants⟩ ((Text.parensIf e.isCompound (e.printIn "")).toList ++ ' ' :: rest) =
      run g ⟨stack, .has e⟩ (' ' :: rest) :=
  h.run_operand stack (ends_cons (by decide) rest) (by simp)

theorem run_callee (stack : List Frame) {rest : List Char} (hrest : Ends rest) :
    run g ⟨stack, .wants⟩ ((Text.parensIf e.isLooseCallee (e.printIn "")).toList ++ rest) = run g ⟨stack, .has e⟩ rest := by
  cases hloose : e.isLooseCallee with
  | true => exact h.run_parens stack rest
  | false =>
      have hcompound := Expr.isCompound_eq_false hloose
      obtain ⟨hpending, hlast⟩ := pending_of_not_isCompound hcompound
      have hrun := h stack rest (fun hc => by rw [hcompound] at hc; cases hc) hrest fun hl => by rw [hloose] at hl; cases hl
      rwa [hpending, hlast] at hrun

end Passes

theorem passes_token {e : Expr} {token : Token} (hpending : pending e = []) (hlast : last e = e)
    (hlexes : ∀ rest, Ends rest → (e.isLooseCallee = true → rest.head? ≠ some '.') →
      Lexes (e.printIn "").toList rest token)
    (hstep : ∀ stack, step g ⟨stack, .wants⟩ token = some ⟨stack, .has e⟩) : Passes g e := by
  intro stack rest _ hrest hpoint
  rw [hpending, hlast]
  exact run_token (hlexes rest hrest hpoint) (hstep stack)

theorem passes_ident {name : String} (hname : Text.isName name = true) (hword : name ∉ reservedWords) :
    Passes g (.ident name) := by
  have hne : ∀ word ∈ reservedWords, name ≠ word := by
    rintro word hmem rfl
    exact hword hmem
  have hunary : unaryOperator? (.name name false) = none := by
    simp [unaryOperator?, hne "delete" (by decide), hne "void" (by decide), hne "typeof" (by decide)]
  have hstep : ∀ stack, step g ⟨stack, .wants⟩ (.name name false) = some ⟨stack, .has (.ident name)⟩ := by
    intro stack
    simp only [step, hunary]
    rw [operand?, if_neg (by simpa using hword)]
    · exact fun h _ => hne "null" (by decide) h
    · exact fun h _ => hne "true" (by decide) h
    · exact fun h _ => hne "false" (by decide) h
  exact passes_token rfl rfl (fun rest hrest _ => lexes_name hname hrest) hstep

theorem passes_number {x : Number} {n : Nat} (hsign : x.isNegative = false) (hwhole : x.wholePart? = some n)
    (hn : n < Number.tenPow 15) : Passes g (.literal (.number x)) := by
  have htext : (Expr.printIn "" (.literal (.number x))).toList = Nat.toDigits 10 n := format_whole hsign hwhole hn
  have hvalue : Number.ofNat n = x := Number.ofNat_eq_of_wholePart hsign hwhole
  apply passes_token rfl rfl
  · intro rest hrest hpoint
    rw [htext]
    exact lexes_number hn hrest (hpoint rfl)
  · intro stack
    rw [hvalue]
    rfl

theorem passes_literal_word {text : String} {value : Literal} (hprint : (Expr.literal value).printIn "" = text)
    (hname : Text.isName text = true)
    (hstep : ∀ stack, step g ⟨stack, .wants⟩ (.name text false) = some ⟨stack, .has (.literal value)⟩) :
    Passes g (.literal value) := by
  refine passes_token rfl rfl (fun rest hrest _ => ?_) hstep
  rw [hprint]
  exact lexes_name hname hrest

theorem passes_string (s : String) : Passes g (.literal (.string s)) :=
  passes_token rfl rfl (fun rest _ _ => lexes_quote s rest) fun _ => rfl

theorem passes_member {object : Expr} {name : String} (h : Passes g object) (hname : Text.isName name = true) :
    Passes g (.member object (.name name)) := by
  intro stack rest _ hrest _
  obtain ⟨c, cs, hlist, hdigit, hchars⟩ := exists_of_isName hname
  have hpoint : Lexes ['.'] (name.toList ++ rest) (.punct ".") := by
    rw [hlist]
    exact lexes_point (hchars c (List.mem_cons_self ..)) hdigit _
  have htext : ((Expr.member object (.name name)).printIn "").toList ++ rest =
      (Text.parensIf object.isLooseCallee (object.printIn "")).toList ++ (['.'] ++ (name.toList ++ rest)) := by
    rw [printIn_member, memberText, if_pos hname, String.toList_append, String.toList_append]
    simp
  calc run g ⟨stack, .wants⟩ (((Expr.member object (.name name)).printIn "").toList ++ rest)
      = run g ⟨stack, .has object⟩ (['.'] ++ (name.toList ++ rest)) := by
        rw [htext]
        exact h.run_callee stack (ends_cons (c := '.') (by decide) _)
    _ = run g ⟨stack, .named object⟩ (name.toList ++ rest) := run_token hpoint rfl
    _ = run g ⟨stack, .has (.member object (.name name))⟩ rest := run_token (lexes_name hname hrest) rfl

theorem passes_index {object index : Expr} (h : Passes g object) (hindex : Passes g index) :
    Passes g (.member object (.computed index)) := by
  intro stack rest _ _ _
  have htext : ((Expr.member object (.computed index)).printIn "").toList ++ rest =
      (Text.parensIf object.isLooseCallee (object.printIn "")).toList ++
        ("[".toList ++ ((index.printIn "").toList ++ ("]".toList ++ rest))) := by
    rw [printIn_index, String.toList_append, toList_brackets]
    simp
  calc run g ⟨stack, .wants⟩ (((Expr.member object (.computed index)).printIn "").toList ++ rest)
      = run g ⟨stack, .has object⟩ ("[".toList ++ ((index.printIn "").toList ++ ("]".toList ++ rest))) := by
        rw [htext]
        exact h.run_callee stack (ends_cons (c := '[') (by decide) _)
    _ = run g ⟨.index object :: stack, .wants⟩ ((index.printIn "").toList ++ ("]".toList ++ rest)) :=
        run_token (lexes_bracket (by decide) _) rfl
    _ = run g ⟨stack, .has (.member object (.computed index))⟩ rest := hindex.run_close rfl (by decide) rfl rest

theorem toList_join_cons (sep s : String) (texts : List String) (h : texts ≠ []) :
    (Text.join sep (s :: texts)).toList = s.toList ++ (sep.toList ++ (Text.join sep texts).toList) := by
  cases texts with
  | nil => exact absurd rfl h
  | cons t texts => rw [Text.join, String.toList_append, String.toList_append, List.append_assoc]

theorem run_args {callee a : Expr} {args done : List Expr} (ha : Passes g a) (hargs : ∀ a ∈ args, Passes g a)
    (stack : List Frame) (rest : List Char) :
    run g ⟨.args callee done :: stack, .wants⟩
        ((Text.join ", " (Expr.printList "" (a :: args))).toList ++ (")".toList ++ rest)) =
      run g ⟨stack, .has (.call callee (done ++ a :: args))⟩ rest := by
  induction args generalizing a done with
  | nil => exact ha.run_close rfl (by decide) rfl rest
  | cons b args ih =>
      obtain ⟨hb, hargs⟩ := List.forall_mem_cons.mp hargs
      have hnext : run g ⟨.args callee (done ++ [a]) :: stack, .wants⟩
          ((Text.join ", " (Expr.printList "" (b :: args))).toList ++ (")".toList ++ rest)) =
            run g ⟨stack, .has (.call callee (done ++ [a] ++ b :: args))⟩ rest := ih hb hargs
      have hne : Expr.printList "" (b :: args) ≠ [] := List.cons_ne_nil _ _
      have htext : (Text.join ", " (Expr.printList "" (a :: b :: args))).toList ++ (")".toList ++ rest) =
          (a.printIn "").toList ++ (",".toList ++
            ' ' :: ((Text.join ", " (Expr.printList "" (b :: args))).toList ++ (")".toList ++ rest))) := by
        rw [Expr.printList, toList_join_cons _ _ _ hne]
        simp
      rw [List.append_assoc, List.singleton_append] at hnext
      rw [htext, ha.run_close rfl (by decide) rfl, run_blank]
      exact hnext

theorem passes_call {callee : Expr} {args : List Expr} (h : Passes g callee) (hargs : ∀ a ∈ args, Passes g a) :
    Passes g (.call callee args) := by
  intro stack rest _ _ _
  have htext : ((Expr.call callee args).printIn "").toList ++ rest =
      (Text.parensIf callee.isLooseCallee (callee.printIn "")).toList ++
        ("(".toList ++ ((Text.join ", " (Expr.printList "" args)).toList ++ (")".toList ++ rest))) := by
    rw [printIn_call, String.toList_append, toList_parens]
    simp
  calc run g ⟨stack, .wants⟩ (((Expr.call callee args).printIn "").toList ++ rest)
      = run g ⟨stack, .has callee⟩
          ("(".toList ++ ((Text.join ", " (Expr.printList "" args)).toList ++ (")".toList ++ rest))) := by
        rw [htext]
        exact h.run_callee stack (ends_cons (c := '(') (by decide) _)
    _ = run g ⟨.args callee [] :: stack, .wants⟩
          ((Text.join ", " (Expr.printList "" args)).toList ++ (")".toList ++ rest)) :=
        run_token (lexes_bracket (by decide) _) rfl
    _ = run g ⟨stack, .has (.call callee args)⟩ rest := by
        cases args with
        | nil => exact run_token (lexes_bracket (by decide) rest) rfl
        | cons a args =>
            obtain ⟨ha, hargs⟩ := List.forall_mem_cons.mp hargs
            exact run_args ha hargs stack rest

theorem passes_unary {op : String} {operand : Expr} (hop : op ∈ ["+", "-", "~", "!", "delete", "void", "typeof"])
    (he : operand.Elementary) (h : Passes g operand) : Passes g (.unary op operand) := by
  intro stack rest _ hrest hpoint
  have hopens := opensOperand_parensIf fun hcompound => opensOperand_print he hcompound
  obtain ⟨token, htoken, hrun⟩ := unary_token (g := g) hop hopens rest
  have hstep : step g ⟨stack, .wants⟩ token = some ⟨.unary op :: stack, .wants⟩ := by
    simp only [step, htoken]
  calc run g ⟨stack, .wants⟩ (((Expr.unary op operand).printIn "").toList ++ rest)
      = run g ⟨.unary op :: stack, .wants⟩
          ((Text.parensIf operand.isCompound (operand.printIn "")).toList ++ rest) := hrun _ _ hstep
    _ = run g ⟨.unary op :: stack, .has operand⟩ rest := h.run_operand _ hrest (hpoint rfl)

theorem run_binary {op : String} (hop : (Source.strength op).isSome = true) (stack : List Frame) (e : Expr)
    (rest : List Char) :
    run g ⟨stack, .has e⟩ (' ' :: (op.toList ++ ' ' :: rest)) =
      run g ⟨.binary op (settle (g.keeps · op) stack e).2 :: (settle (g.keeps · op) stack e).1, .wants⟩ rest := by
  obtain ⟨token, hlexes, htoken⟩ := binary_token hop rest
  rw [run_blank, run_token hlexes, run_blank]
  simp only [step, htoken]

theorem passes_binary {op : String} {lhs rhs : Expr} (hop : (Source.strength op).isSome = true) (hl : Passes g lhs)
    (hr : Passes g rhs) : Passes g (.binary op lhs rhs) := by
  intro stack rest hplain hrest hpoint
  have htext : ((Expr.binary op lhs rhs).printIn "").toList ++ rest =
      (Text.parensIf lhs.isCompound (lhs.printIn "")).toList ++ ' ' :: (op.toList ++
        ' ' :: ((Text.parensIf rhs.isCompound (rhs.printIn "")).toList ++ rest)) := by
    simp [printIn_binary]
  calc run g ⟨stack, .wants⟩ (((Expr.binary op lhs rhs).printIn "").toList ++ rest)
      = run g ⟨stack, .has lhs⟩ (' ' :: (op.toList ++
          ' ' :: ((Text.parensIf rhs.isCompound (rhs.printIn "")).toList ++ rest))) := by
        rw [htext]
        exact hl.run_operand_blank stack _
    _ = run g ⟨.binary op lhs :: stack, .wants⟩ ((Text.parensIf rhs.isCompound (rhs.printIn "")).toList ++ rest) := by
        rw [run_binary hop, settle_of_isPlain (hplain rfl)]
    _ = run g ⟨.binary op lhs :: stack, .has rhs⟩ rest := hr.run_operand _ hrest (hpoint rfl)

theorem run_mark {op : String} (hop : op ∈ ["?", ":"]) {s s' : State} (hstep : step g s (.punct op) = some s')
    (rest : List Char) : run g s (' ' :: (op.toList ++ ' ' :: rest)) = run g s' rest := by
  have hclass : ∀ op ∈ ["?", ":"], op ∈ punctuators ∧ opensPlainly op = true ∧ op ≠ "?." := by decide
  obtain ⟨hmem, hfirst, hchain⟩ := hclass op hop
  have hlexes := lexes_punct hmem (ne_of_opensPlainly hfirst) hchain (c := ' ') (by decide) rest
  rw [run_blank, run_token hlexes hstep, run_blank]

theorem run_question (stack : List Frame) (e : Expr) (rest : List Char) :
    run g ⟨stack, .has e⟩ (' ' :: ("?".toList ++ ' ' :: rest)) =
      run g ⟨.test (settle (g.keeps · "?") stack e).2 :: (settle (g.keeps · "?") stack e).1, .wants⟩ rest :=
  run_mark (by simp) rfl rest

theorem run_colon (test e : Expr) (stack : List Frame) (rest : List Char) :
    run g ⟨.test test :: stack, .has e⟩ (' ' :: (":".toList ++ ' ' :: rest)) =
      run g ⟨.branch test e :: stack, .wants⟩ rest :=
  run_mark (by simp) rfl rest

theorem passes_conditional {test yes no : Expr} (ht : Passes g test) (hy : Passes g yes) (hn : Passes g no) :
    Passes g (.conditional test yes no) := by
  intro stack rest hplain hrest hpoint
  have htext : ((Expr.conditional test yes no).printIn "").toList ++ rest =
      (Text.parensIf test.isCompound (test.printIn "")).toList ++ ' ' :: ("?".toList ++
        ' ' :: ((Text.parensIf yes.isCompound (yes.printIn "")).toList ++ ' ' :: (":".toList ++
          ' ' :: ((Text.parensIf no.isCompound (no.printIn "")).toList ++ rest)))) := by
    simp [printIn_conditional]
  rw [htext, ht.run_operand_blank, run_question, settle_of_isPlain (hplain rfl), hy.run_operand_blank, run_colon]
  exact hn.run_operand _ hrest (hpoint rfl)

theorem passes {e : Expr} (he : e.Elementary) : Passes g e := by
  induction he with
  | ident hname hword => exact passes_ident hname hword
  | null => exact passes_literal_word rfl (by decide) fun _ => rfl
  | bool value =>
      cases value with
      | true => exact passes_literal_word rfl (by decide) fun _ => rfl
      | false => exact passes_literal_word rfl (by decide) fun _ => rfl
  | string value => exact passes_string value
  | number hsign hwhole hn => exact passes_number hsign hwhole hn
  | member _ hname ih => exact passes_member ih hname
  | index _ _ ih ih' => exact passes_index ih ih'
  | call _ _ ih ih' => exact passes_call ih ih'
  | unary hop he ih => exact passes_unary hop he ih
  | binary hop _ _ ih ih' => exact passes_binary hop ih ih'
  | conditional _ _ _ iht ihy ihn => exact passes_conditional iht ihy ihn

theorem read_print {e : Expr} (he : e.Elementary) (g : Grouping) : read g e.print = some e := by
  have hends : Ends [] := fun c hc => by cases hc
  have hrun := passes he (g := g) [] [] (fun _ => rfl) hends (fun _ h => by cases h)
  have hplain : isPlain [] = true := rfl
  have hsettle := settleAll_pending hplain e
  rw [List.append_nil] at hrun
  rw [read, Expr.print, hrun, run_nil, finish]
  simp only [hsettle]

def operandText (e : Expr) : String := Text.parensIf e.isCompound e.print

theorem run_operandText {e : Expr} (he : e.Elementary) (stack : List Frame) (rest : List Char) :
    run g ⟨stack, .wants⟩ ((operandText e).toList ++ ' ' :: rest) = run g ⟨stack, .has e⟩ (' ' :: rest) :=
  (passes he).run_operand_blank stack rest

theorem run_lastText {e : Expr} (he : e.Elementary) (stack : List Frame) :
    run g ⟨stack, .wants⟩ (operandText e).toList = finish ⟨stack, .has e⟩ := by
  have hends : Ends [] := fun c hc => by cases hc
  have hrun := (passes he (g := g)).run_operand stack hends (by simp)
  rwa [List.append_nil, run_nil] at hrun

section Chains

variable {w x y z : Expr} {op op' : String}

theorem read_chain (g : Grouping) (hx : x.Elementary) (hy : y.Elementary) (hz : z.Elementary)
    (hop : (Source.strength op).isSome = true) (hop' : (Source.strength op').isSome = true) :
    read g (operandText x ++ " " ++ op ++ " " ++ operandText y ++ " " ++ op' ++ " " ++ operandText z) =
      some (if g.keeps op op' then .binary op' (.binary op x y) z else .binary op x (.binary op' y z)) := by
  have htext : (operandText x ++ " " ++ op ++ " " ++ operandText y ++ " " ++ op' ++ " " ++ operandText z).toList =
      (operandText x).toList ++ ' ' :: (op.toList ++ ' ' :: ((operandText y).toList ++
        ' ' :: (op'.toList ++ ' ' :: (operandText z).toList))) := by simp
  rw [read, htext, run_operandText hx, run_binary hop, settle_of_isPlain rfl, run_operandText hy, run_binary hop',
    run_lastText hz]
  cases hkeeps : g.keeps op op' <;> simp [settle, hkeeps, finish, settleAll]

theorem read_chain_question (g : Grouping) (hw : w.Elementary) (hx : x.Elementary) (hy : y.Elementary)
    (hz : z.Elementary) (hop : (Source.strength op).isSome = true) :
    read g (operandText w ++ " " ++ op ++ " " ++ operandText x ++ " ? " ++ operandText y ++ " : " ++ operandText z) =
      some (if g.keeps op "?" then .conditional (.binary op w x) y z else .binary op w (.conditional x y z)) := by
  have htext :
      (operandText w ++ " " ++ op ++ " " ++ operandText x ++ " ? " ++ operandText y ++ " : " ++ operandText z).toList =
        (operandText w).toList ++ ' ' :: (op.toList ++ ' ' :: ((operandText x).toList ++ ' ' :: ("?".toList ++
          ' ' :: ((operandText y).toList ++ ' ' :: (":".toList ++ ' ' :: (operandText z).toList))))) := by simp
  rw [read, htext, run_operandText hw, run_binary hop, settle_of_isPlain rfl, run_operandText hx, run_question,
    run_operandText hy, run_colon, run_lastText hz]
  cases hkeeps : g.keeps op "?" <;> simp [settle, hkeeps, finish, settleAll]

theorem read_question_chain (g : Grouping) (hw : w.Elementary) (hx : x.Elementary) (hy : y.Elementary)
    (hz : z.Elementary) (hop : (Source.strength op).isSome = true) :
    read g (operandText w ++ " ? " ++ operandText x ++ " : " ++ operandText y ++ " " ++ op ++ " " ++ operandText z) =
      some (if g.keeps "?" op then .binary op (.conditional w x y) z else .conditional w x (.binary op y z)) := by
  have htext :
      (operandText w ++ " ? " ++ operandText x ++ " : " ++ operandText y ++ " " ++ op ++ " " ++ operandText z).toList =
        (operandText w).toList ++ ' ' :: ("?".toList ++ ' ' :: ((operandText x).toList ++ ' ' :: (":".toList ++
          ' ' :: ((operandText y).toList ++ ' ' :: (op.toList ++ ' ' :: (operandText z).toList))))) := by simp
  rw [read, htext, run_operandText hw, run_question, settle_of_isPlain rfl, run_operandText hx, run_colon,
    run_operandText hy, run_binary hop, run_lastText hz]
  cases hkeeps : g.keeps "?" op <;> simp [settle, hkeeps, finish, settleAll]

end Chains

end Operators

open Operators

/-- However operators group, the printed text is read back as the expression that it was printed from. The reader does
go by the grouping: operators that stand side by side with no parentheses are grouped as it says. -/
theorem Expr.print_unambiguous (g : Grouping) :
    (∀ e : Expr, e.Elementary → read g e.print = some e) ∧
    (∀ x y z : Expr, x.Elementary → y.Elementary → z.Elementary → ∀ op op', (Source.strength op).isSome = true →
      (Source.strength op').isSome = true →
        read g (operandText x ++ " " ++ op ++ " " ++ operandText y ++ " " ++ op' ++ " " ++ operandText z) =
          some (if g.keeps op op' then .binary op' (.binary op x y) z else .binary op x (.binary op' y z))) ∧
    ∀ w x y z : Expr, w.Elementary → x.Elementary → y.Elementary → z.Elementary → ∀ op, (Source.strength op).isSome = true →
      read g (operandText w ++ " " ++ op ++ " " ++ operandText x ++ " ? " ++ operandText y ++ " : " ++ operandText z) =
          some (if g.keeps op "?" then .conditional (.binary op w x) y z else .binary op w (.conditional x y z)) ∧
        read g (operandText w ++ " ? " ++ operandText x ++ " : " ++ operandText y ++ " " ++ op ++ " " ++ operandText z) =
          some (if g.keeps "?" op then .binary op (.conditional w x y) z else .conditional w x (.binary op y z)) := by
  refine ⟨fun e he => read_print he g, fun x y z hx hy hz op op' hop hop' => read_chain g hx hy hz hop hop', ?_⟩
  intro w x y z hw hx hy hz op hop
  exact ⟨read_chain_question g hw hx hy hz hop, read_question_chain g hw hx hy hz hop⟩

def Grouping.usual : Grouping := ⟨fun op => (Source.strength op).getD 0, fun op => op == "**" || op == "?"⟩

def Grouping.leftward : Grouping := ⟨fun _ => 0, fun _ => false⟩

def signedSum : Expr :=
  .unary "-" (.binary "+"
    (.binary "*" (.ident "a") (.conditional (.ident "b") (.literal (.string "c"))
      (.member (.member (.literal (.number (Number.ofNat 5))) (.name "d")) (.computed (.ident "e")))))
    (.unary "!" (.call (.ident "f") [])))

theorem elementary_letter {name : String} (h : name ∈ ["a", "b", "e", "f"]) : (Expr.ident name).Elementary := by
  have hall : ∀ name ∈ ["a", "b", "e", "f"], Text.isName name = true ∧ name ∉ reservedWords := by decide
  exact .ident (hall name h).1 (hall name h).2

theorem elementary_signedSum : signedSum.Elementary := by
  have hfive : (Expr.literal (.number (Number.ofNat 5))).Elementary :=
    .number (n := 5) (by decide +kernel) (by decide +kernel) (by decide)
  have hnamed : (Expr.member (.literal (.number (Number.ofNat 5))) (.name "d")).Elementary := .member hfive (by decide)
  have ha : (Expr.ident "a").Elementary := elementary_letter (by decide)
  have hb : (Expr.ident "b").Elementary := elementary_letter (by decide)
  have he : (Expr.ident "e").Elementary := elementary_letter (by decide)
  have hcall : (Expr.call (.ident "f") []).Elementary := .call (elementary_letter (by decide)) (by simp)
  have hchoice := Expr.Elementary.conditional hb (.string "c") (.index hnamed he)
  exact .unary (by decide) (.binary rfl (.binary rfl ha hchoice) (.unary (by decide) hcall))

theorem signedSum_unambiguous :
    signedSum.print = "-((a * (b ? \"c\" : (5).d[e])) + (!f()))" ∧
      read .usual signedSum.print = some signedSum ∧ read .leftward signedSum.print = some signedSum ∧
      read .usual "a + b * e" = some (.binary "+" (.ident "a") (.binary "*" (.ident "b") (.ident "e"))) ∧
      read .leftward "a + b * e" = some (.binary "*" (.binary "+" (.ident "a") (.ident "b")) (.ident "e")) ∧
      read .usual "a + b ? e : f" =
        some (.conditional (.binary "+" (.ident "a") (.ident "b")) (.ident "e") (.ident "f")) ∧
      read .leftward "a ? b : e + f" =
        some (.binary "+" (.conditional (.ident "a") (.ident "b") (.ident "e")) (.ident "f")) := by
  have ha : (Expr.ident "a").Elementary := elementary_letter (by decide)
  have hb : (Expr.ident "b").Elementary := elementary_letter (by decide)
  have he : (Expr.ident "e").Elementary := elementary_letter (by decide)
  have hf : (Expr.ident "f").Elementary := elementary_letter (by decide)
  obtain ⟨husual, hchain, hquestion⟩ := Expr.print_unambiguous .usual
  obtain ⟨hleft, hchain', hquestion'⟩ := Expr.print_unambiguous .leftward
  refine ⟨by decide +kernel, husual _ elementary_signedSum, hleft _ elementary_signedSum, ?_, ?_, ?_, ?_⟩
  · exact hchain _ _ _ ha hb he "+" "*" rfl rfl
  · exact hchain' _ _ _ ha hb he "+" "*" rfl rfl
  · exact (hquestion _ _ _ _ ha hb he hf "+" rfl).1
  · exact (hquestion' _ _ _ _ ha hb he hf "+" rfl).2

end Memoizer
