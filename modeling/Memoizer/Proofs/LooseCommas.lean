import Mathlib
import Memoizer.Proofs.Nesting

namespace Memoizer

open Nesting Text

mutual

/-- Names and operators are plain, and the texts that were kept close the brackets and literals that they open. -/
def Expr.WellSpelled : Expr → Prop
  | .literal _ => True
  | .ident name => isPlain name = true
  | .member object (.name _) => object.WellSpelled
  | .member object (.computed index) => object.WellSpelled ∧ index.WellSpelled
  | .call callee args => callee.WellSpelled ∧ Expr.WellSpelledAll args
  | .optionalMember object (.name _) => object.WellSpelled
  | .optionalMember object (.computed index) => object.WellSpelled ∧ index.WellSpelled
  | .optionalCall callee args => callee.WellSpelled ∧ Expr.WellSpelledAll args
  | .new callee args => callee.WellSpelled ∧ Expr.WellSpelledAll args
  | .template quasis exprs =>
    quasis.length = exprs.length + 1 ∧ (∀ q ∈ quasis, isQuasi q = true) ∧ Expr.WellSpelledAll exprs
  | .object members => ObjectMember.WellSpelledAll members
  | .array elems => Expr.WellSpelledElems elems
  | .arrow params (.expr value) _ => Pattern.WellSpelledAll params ∧ value.WellSpelled
  | .arrow params (.block stmts) _ => Pattern.WellSpelledAll params ∧ Stmt.WellSpelledAll stmts
  | .function name params body _ _ =>
    (∀ n ∈ name, isPlain n = true) ∧ Pattern.WellSpelledAll params ∧ Stmt.WellSpelledAll body
  | .unary op operand => isPlain op = true ∧ operand.WellSpelled
  | .binary op lhs rhs => isPlain op = true ∧ lhs.WellSpelled ∧ rhs.WellSpelled
  | .conditional test yes no => test.WellSpelled ∧ yes.WellSpelled ∧ no.WellSpelled
  | .assign op target value => isPlain op = true ∧ target.WellSpelled ∧ value.WellSpelled
  | .spread value => value.WellSpelled
  | .verbatim text => (pieces? text).isSome = true

def Expr.WellSpelledAll : List Expr → Prop
  | [] => True
  | e :: exprs => e.WellSpelled ∧ Expr.WellSpelledAll exprs

def Expr.WellSpelledElems : List (Option Expr) → Prop
  | [] => True
  | none :: elems => Expr.WellSpelledElems elems
  | some e :: elems => e.WellSpelled ∧ Expr.WellSpelledElems elems

def ObjectMember.WellSpelledAll : List ObjectMember → Prop
  | [] => True
  | .property key value _ :: members => key.WellSpelled ∧ value.WellSpelled ∧ ObjectMember.WellSpelledAll members
  | .spread value :: members => value.WellSpelled ∧ ObjectMember.WellSpelledAll members
  | .verbatim text :: members => (pieces? text).isSome = true ∧ ObjectMember.WellSpelledAll members

def PropKey.WellSpelled : PropKey → Prop
  | .ident name => isPlain name = true
  | .string _ => True
  | .number _ => True
  | .computed expr => expr.WellSpelled

def Pattern.WellSpelled : Pattern → Prop
  | .ident name => isPlain name = true
  | .array elems => Pattern.WellSpelledElems elems
  | .object props none => PatternProp.WellSpelledAll props
  | .object props (some others) => PatternProp.WellSpelledAll props ∧ others.WellSpelled
  | .assign target value => target.WellSpelled ∧ value.WellSpelled
  | .rest target => target.WellSpelled

def Pattern.WellSpelledAll : List Pattern → Prop
  | [] => True
  | p :: patterns => p.WellSpelled ∧ Pattern.WellSpelledAll patterns

def Pattern.WellSpelledElems : List (Option Pattern) → Prop
  | [] => True
  | none :: elems => Pattern.WellSpelledElems elems
  | some p :: elems => p.WellSpelled ∧ Pattern.WellSpelledElems elems

def PatternProp.WellSpelledAll : List PatternProp → Prop
  | [] => True
  | .mk key value _ :: props => key.WellSpelled ∧ value.WellSpelled ∧ PatternProp.WellSpelledAll props

def Declarator.WellSpelledAll : List Declarator → Prop
  | [] => True
  | .mk target none :: declarators => target.WellSpelled ∧ Declarator.WellSpelledAll declarators
  | .mk target (some init) :: declarators =>
    target.WellSpelled ∧ init.WellSpelled ∧ Declarator.WellSpelledAll declarators

def Stmt.WellSpelled : Stmt → Prop
  | .decl _ declarators _ => Declarator.WellSpelledAll declarators
  | .ret none _ => True
  | .ret (some value) _ => value.WellSpelled
  | .expr value _ => value.WellSpelled
  | .verbatim _ text _ => (pieces? (trim text)).isSome = true

def Stmt.WellSpelledAll : List Stmt → Prop
  | [] => True
  | s :: stmts => s.WellSpelled ∧ Stmt.WellSpelledAll stmts

end

/-- The kept texts that are printed with no bracket around them. -/
def Expr.exposed (indent : String) : Expr → List String
  | .verbatim text => [text]
  | .assign _ target value => target.exposed indent ++ value.exposed indent
  | .arrow _ (.expr value) _ => if startsWith "\x7b" (value.printIn indent) then [] else value.exposed indent
  | _ => []

def looseCount (text : String) : Nat := (pieces? text).elim 0 (·.length - 1)

def Expr.looseCommas (indent : String) (e : Expr) : Nat := ((e.exposed indent).map looseCount).sum

theorem commas_looseCount {text : String} (h : (pieces? text).isSome = true) : Commas text (looseCount text) := by
  obtain ⟨pieces, hpieces⟩ := Option.isSome_iff_exists.mp h
  rw [looseCount, hpieces]
  exact commas_of_pieces hpieces

theorem looseCommas_eq_zero {e : Expr} (h : e.isCompound = false) (indent : String) : e.looseCommas indent = 0 := by
  cases e with
  | arrow | assign | verbatim => cases h
  | _ => rfl

theorem isCompound_eq_false_of_constructor {e : Expr} (h : e.isLooseConstructor = false) : e.isCompound = false := by
  cases e with
  | call => rfl
  | _ => exact Expr.isCompound_eq_false h

theorem commas_wrapped {e : Expr} {indent : String} {wrap : Bool} (hwrap : wrap = false → e.isCompound = false)
    (h : Commas (e.printIn indent) (e.looseCommas indent)) : Commas (parensIf wrap (e.printIn indent)) 0 := by
  cases wrap with
  | true => exact h.parens
  | false =>
      rw [looseCommas_eq_zero (hwrap rfl)] at h
      exact h

theorem commas_literal (value : Literal) : Commas value.print 0 := by
  cases value with
  | null => rfl
  | bool b => cases b <;> rfl
  | number x => exact commas_of_isPlain (isPlain_format x)
  | string s => exact commas_quote s

theorem commas_memberText {object : String} (h : Commas object 0) (name : String) : Commas (memberText object name) 0 := by
  unfold memberText
  split_ifs with hname
  · exact (h.plain).plain (isPlain_of_isName hname)
  · exact h.append (commas_quote name).brackets

theorem commas_optionalMemberText {object : String} (h : Commas object 0) (name : String) :
    Commas (optionalMemberText object name) 0 := by
  unfold optionalMemberText
  split_ifs with hname
  · exact (h.plain).plain (isPlain_of_isName hname)
  · exact (h.plain).append (commas_quote name).brackets

theorem commas_unaryText {op operand : String} {n : Nat} (hop : isPlain op = true) (h : Commas operand n) :
    Commas (unaryText op operand) n := by
  unfold unaryText
  split_ifs
  · exact h.after (isPlain_append hop)
  · exact h.after hop

theorem commas_arrowBodyText {s : String} {n : Nat} (h : Commas s n) :
    Commas (arrowBodyText s) (if startsWith "\x7b" s then 0 else n) := h.parensIf _

theorem isPlain_asyncText (async : Bool) : isPlain (asyncText async) = true := by cases async <;> decide

theorem isPlain_starText (generator : Bool) : isPlain (starText generator) = true := by cases generator <;> decide

theorem isPlain_nameText {name : Option String} (h : ∀ n ∈ name, isPlain n = true) : isPlain (nameText name) = true := by
  cases name with
  | none => decide
  | some n => exact isPlain_append (by decide) (h n rfl)

theorem isPlain_indentStep {indent : String} (h : isPlain indent = true) : isPlain (indent ++ indentStep) = true :=
  isPlain_append h

theorem printList_eq_map (indent : String) (exprs : List Expr) :
    Expr.printList indent exprs = exprs.map (Expr.printIn indent) := by
  induction exprs with
  | nil => rfl
  | cons e exprs ih => rw [Expr.printList, ih, List.map_cons]

theorem printElems_eq_map (indent : String) (elems : List (Option Expr)) :
    Expr.printElems indent elems = elems.map fun elem => elem.elim "" (Expr.printIn indent) := by
  induction elems with
  | nil => rfl
  | cons elem elems ih => cases elem <;> rw [Expr.printElems, ih, List.map_cons] <;> rfl

theorem looseCommas_arrow (params : List Pattern) (value : Expr) (async : Bool) (indent : String) :
    (Expr.arrow params (.expr value) async).looseCommas indent =
      if startsWith "\x7b" (value.printIn indent) then 0 else value.looseCommas indent := by
  rw [Expr.looseCommas, Expr.exposed]
  split_ifs <;> rfl

theorem commas_list {texts : List String} (h : ∀ s ∈ texts, Balanced s) : Commas (parens (join ", " texts)) 0 := by
  obtain ⟨n, hjoin⟩ := balanced_join h
  exact hjoin.parens

theorem commas_blockText {indent lines : String} (hindent : isPlain indent = true) (h : Balanced lines) :
    Commas (blockText indent lines) 0 := by
  obtain ⟨n, h⟩ := h
  have hinner : Commas ("\n" ++ lines ++ indent) n := (h.after).plain hindent
  exact hinner.wrap (o := '{') rfl (by simp [blockText])

mutual

theorem Expr.commas_printIn : ∀ (e : Expr) (indent : String), isPlain indent = true → e.WellSpelled →
    Commas (e.printIn indent) (e.looseCommas indent)
  | .literal value, _, _, _ => commas_literal value
  | .ident _, _, _, h => commas_of_isPlain h
  | .member target (.name name), indent, hi, h =>
    commas_memberText (commas_wrapped Expr.isCompound_eq_false (target.commas_printIn indent hi h)) name
  | .member target (.computed index), indent, hi, ⟨ht, hx⟩ => by
    have htarget := commas_wrapped Expr.isCompound_eq_false (target.commas_printIn indent hi ht)
    exact htarget.append (index.commas_printIn indent hi hx).brackets
  | .call callee args, indent, hi, ⟨hc, ha⟩ => by
    have hcallee := commas_wrapped Expr.isCompound_eq_false (callee.commas_printIn indent hi hc)
    exact hcallee.append (commas_list (Expr.balanced_printList args indent hi ha))
  | .optionalMember target (.name name), indent, hi, h =>
    commas_optionalMemberText (commas_wrapped Expr.isCompound_eq_false (target.commas_printIn indent hi h)) name
  | .optionalMember target (.computed index), indent, hi, ⟨ht, hx⟩ => by
    have htarget := commas_wrapped Expr.isCompound_eq_false (target.commas_printIn indent hi ht)
    exact (htarget.plain).append (index.commas_printIn indent hi hx).brackets
  | .optionalCall callee args, indent, hi, ⟨hc, ha⟩ => by
    have hcallee := commas_wrapped Expr.isCompound_eq_false (callee.commas_printIn indent hi hc)
    exact (hcallee.plain).append (commas_list (Expr.balanced_printList args indent hi ha))
  | .new callee args, indent, hi, ⟨hc, ha⟩ => by
    have hcallee := commas_wrapped isCompound_eq_false_of_constructor (callee.commas_printIn indent hi hc)
    exact (hcallee.after).append (commas_list (Expr.balanced_printList args indent hi ha))
  | .template quasis exprs, indent, hi, ⟨hlength, hquasis, hexprs⟩ => by
    have hprinted : quasis.length = (Expr.printList indent exprs).length + 1 := by
      rw [printList_eq_map, List.length_map, hlength]
    exact commas_template hprinted hquasis (Expr.balanced_printList exprs indent hi hexprs)
  | .object members, indent, hi, h => commas_braces (ObjectMember.balanced_printList members indent hi h)
  | .array elems, indent, hi, h => by
    obtain ⟨n, hjoin⟩ := balanced_join (Expr.balanced_printElems elems indent hi h)
    exact hjoin.brackets
  | .arrow params (.expr value) async, indent, hi, ⟨hp, hv⟩ => by
    have hhead := ((Pattern.commas_printParams params hp).after (isPlain_asyncText async)).plain (t := " => ")
    have hprint := hhead.append (commas_arrowBodyText (value.commas_printIn indent hi hv))
    rw [Nat.zero_add] at hprint
    rw [looseCommas_arrow, Expr.printIn]
    exact hprint
  | .arrow params (.block stmts) async, indent, hi, ⟨hp, hs⟩ => by
    have hhead := ((Pattern.commas_printParams params hp).after (isPlain_asyncText async)).plain (t := " => ")
    exact hhead.append (Stmt.commas_printBlock stmts indent hi hs)
  | .function name params body async generator, indent, hi, ⟨hn, hp, hb⟩ => by
    have hword : isPlain (asyncText async ++ "function" ++ starText generator ++ nameText name) = true :=
      isPlain_append (isPlain_append (isPlain_append (isPlain_asyncText async)) (isPlain_starText generator))
        (isPlain_nameText hn)
    have hhead := ((commas_list (Pattern.balanced_printList params hp)).after hword).plain (t := " ")
    exact hhead.append (Stmt.commas_printBlock body indent hi hb)
  | .unary op operand, indent, hi, ⟨hop, h⟩ =>
    commas_unaryText hop (commas_wrapped id (operand.commas_printIn indent hi h))
  | .binary op lhs rhs, indent, hi, ⟨hop, hl, hr⟩ => by
    have hlhs := commas_wrapped id (lhs.commas_printIn indent hi hl)
    have hrhs := commas_wrapped id (rhs.commas_printIn indent hi hr)
    exact (((hlhs.plain).plain hop).plain).append hrhs
  | .conditional test yes no, indent, hi, ⟨ht, hy, hn⟩ => by
    have htest := commas_wrapped id (test.commas_printIn indent hi ht)
    have hyes := commas_wrapped id (yes.commas_printIn indent hi hy)
    have hno := commas_wrapped id (no.commas_printIn indent hi hn)
    exact (((htest.plain).append hyes).plain).append hno
  | .assign op target value, indent, hi, ⟨hop, ht, hv⟩ => by
    have htarget := target.commas_printIn indent hi ht
    have hvalue := value.commas_printIn indent hi hv
    rw [Expr.looseCommas, Expr.exposed, List.map_append, List.sum_append]
    exact (((htarget.plain).plain hop).plain).append hvalue
  | .spread value, indent, hi, h => (commas_wrapped id (value.commas_printIn indent hi h)).after
  | .verbatim text, _, _, h => commas_looseCount h

theorem Expr.balanced_printList : ∀ (exprs : List Expr) (indent : String), isPlain indent = true →
    Expr.WellSpelledAll exprs → ∀ s ∈ Expr.printList indent exprs, Balanced s
  | [], _, _, _ => by simp [Expr.printList]
  | e :: exprs, indent, hi, ⟨he, hes⟩ =>
    List.forall_mem_cons.mpr ⟨(e.commas_printIn indent hi he).balanced, Expr.balanced_printList exprs indent hi hes⟩

theorem Expr.balanced_printElems : ∀ (elems : List (Option Expr)) (indent : String), isPlain indent = true →
    Expr.WellSpelledElems elems → ∀ s ∈ Expr.printElems indent elems, Balanced s
  | [], _, _, _ => by simp [Expr.printElems]
  | none :: elems, indent, hi, h => List.forall_mem_cons.mpr ⟨balanced_empty, Expr.balanced_printElems elems indent hi h⟩
  | some e :: elems, indent, hi, ⟨he, hes⟩ =>
    List.forall_mem_cons.mpr ⟨(e.commas_printIn indent hi he).balanced, Expr.balanced_printElems elems indent hi hes⟩

theorem ObjectMember.balanced_printList : ∀ (members : List ObjectMember) (indent : String), isPlain indent = true →
    ObjectMember.WellSpelledAll members → ∀ s ∈ ObjectMember.printList indent members, Balanced s
  | [], _, _, _ => by simp [ObjectMember.printList]
  | .property key value shorthand :: members, indent, hi, ⟨hk, hv, hms⟩ => by
    have hvalue := (value.commas_printIn indent hi hv).balanced
    refine List.forall_mem_cons.mpr ⟨?_, ObjectMember.balanced_printList members indent hi hms⟩
    cases shorthand with
    | true => exact hvalue
    | false => exact ((key.balanced_print hk).plain).append hvalue
  | .spread value :: members, indent, hi, ⟨hv, hms⟩ =>
    List.forall_mem_cons.mpr ⟨((commas_wrapped id (value.commas_printIn indent hi hv)).after).balanced,
      ObjectMember.balanced_printList members indent hi hms⟩
  | .verbatim text :: members, indent, hi, ⟨ht, hms⟩ =>
    List.forall_mem_cons.mpr ⟨(commas_looseCount ht).balanced, ObjectMember.balanced_printList members indent hi hms⟩

theorem PropKey.balanced_print : ∀ key : PropKey, key.WellSpelled → Balanced key.print
  | .ident _, h => (commas_of_isPlain h).balanced
  | .string value, _ => (commas_quote value).balanced
  | .number value, _ => (commas_of_isPlain (isPlain_format value)).balanced
  | .computed expr, h => (expr.commas_printIn "" rfl h).brackets.balanced

theorem Pattern.balanced_print : ∀ p : Pattern, p.WellSpelled → Balanced p.print
  | .ident _, h => (commas_of_isPlain h).balanced
  | .array elems, h => by
    obtain ⟨n, hjoin⟩ := balanced_join (Pattern.balanced_printElems elems h)
    exact hjoin.brackets.balanced
  | .object props none, h => (commas_braces (PatternProp.balanced_printList props h)).balanced
  | .object props (some others), ⟨hp, ho⟩ => by
    have hrest : Balanced ("..." ++ others.print) := (others.balanced_print ho).after
    refine (commas_braces fun s hs => ?_).balanced
    rcases List.mem_append.mp hs with hs | hs
    · exact PatternProp.balanced_printList props hp s hs
    · rw [List.mem_singleton.mp hs]
      exact hrest
  | .assign target value, ⟨ht, hv⟩ =>
    ((target.balanced_print ht).plain).append (value.commas_printIn "" rfl hv).balanced
  | .rest target, h => (target.balanced_print h).after

theorem Pattern.balanced_printList : ∀ patterns : List Pattern, Pattern.WellSpelledAll patterns →
    ∀ s ∈ Pattern.printList patterns, Balanced s
  | [], _ => by simp [Pattern.printList]
  | p :: patterns, ⟨hp, hps⟩ => List.forall_mem_cons.mpr ⟨p.balanced_print hp, Pattern.balanced_printList patterns hps⟩

theorem Pattern.balanced_printElems : ∀ elems : List (Option Pattern), Pattern.WellSpelledElems elems →
    ∀ s ∈ Pattern.printElems elems, Balanced s
  | [], _ => by simp [Pattern.printElems]
  | none :: elems, h => List.forall_mem_cons.mpr ⟨balanced_empty, Pattern.balanced_printElems elems h⟩
  | some p :: elems, ⟨hp, hps⟩ => List.forall_mem_cons.mpr ⟨p.balanced_print hp, Pattern.balanced_printElems elems hps⟩

theorem Pattern.commas_printParams : ∀ params : List Pattern, Pattern.WellSpelledAll params →
    Commas (Pattern.printParams params) 0
  | [], _ => rfl
  | p :: patterns, ⟨hp, hps⟩ => by
    have hall : ∀ s ∈ p.print :: Pattern.printList patterns, Balanced s :=
      List.forall_mem_cons.mpr ⟨p.balanced_print hp, Pattern.balanced_printList patterns hps⟩
    unfold Pattern.printParams
    split
    case h_1 => contradiction
    case h_2 name heq =>
      cases heq
      exact commas_of_isPlain hp
    case h_3 heq =>
      cases heq
      exact commas_list hall

theorem PatternProp.balanced_printList : ∀ props : List PatternProp, PatternProp.WellSpelledAll props →
    ∀ s ∈ PatternProp.printList props, Balanced s
  | [], _ => by simp [PatternProp.printList]
  | .mk key value shorthand :: props, ⟨hk, hv, hps⟩ => by
    have hvalue := value.balanced_print hv
    refine List.forall_mem_cons.mpr ⟨?_, PatternProp.balanced_printList props hps⟩
    cases shorthand with
    | true => exact hvalue
    | false => exact ((key.balanced_print hk).plain).append hvalue

theorem Declarator.balanced_printList : ∀ (declarators : List Declarator) (indent : String), isPlain indent = true →
    Declarator.WellSpelledAll declarators → ∀ s ∈ Declarator.printList indent declarators, Balanced s
  | [], _, _, _ => by simp [Declarator.printList]
  | .mk target none :: declarators, indent, hi, ⟨ht, hds⟩ =>
    List.forall_mem_cons.mpr ⟨target.balanced_print ht, Declarator.balanced_printList declarators indent hi hds⟩
  | .mk target (some init) :: declarators, indent, hi, ⟨ht, hv, hds⟩ => by
    have hinit := (init.commas_printIn indent hi hv).balanced
    exact List.forall_mem_cons.mpr ⟨((target.balanced_print ht).plain).append hinit,
      Declarator.balanced_printList declarators indent hi hds⟩

theorem Stmt.balanced_print : ∀ (s : Stmt) (indent : String), isPlain indent = true → s.WellSpelled →
    Balanced (s.print indent)
  | .decl kind declarators _, indent, hi, h => by
    have hkind : isPlain kind.keyword = true := by cases kind <;> decide
    have hall := balanced_join (Declarator.balanced_printList declarators indent hi h)
    exact (hall.after (isPlain_append (isPlain_append hi hkind))).plain
  | .ret none _, indent, hi, _ => (commas_of_isPlain hi).balanced.plain
  | .ret (some value) _, indent, hi, h =>
    ((value.commas_printIn indent hi h).balanced.after (isPlain_append hi)).plain
  | .expr value _, indent, hi, h => by
    have hvalue := ((value.commas_printIn indent hi h).parensIf
      (startsWith "\x7b" (value.printIn indent) || startsWith "function" (value.printIn indent))).balanced
    exact (hvalue.after hi).plain
  | .verbatim _ text _, indent, hi, h => ((commas_looseCount h).balanced.after hi).plain

theorem Stmt.balanced_printAll : ∀ (stmts : List Stmt) (indent : String), isPlain indent = true →
    Stmt.WellSpelledAll stmts → Balanced (Stmt.printAll indent stmts)
  | [], _, _, _ => balanced_empty
  | s :: stmts, indent, hi, ⟨hs, hss⟩ => (s.balanced_print indent hi hs).append (Stmt.balanced_printAll stmts indent hi hss)

theorem Stmt.commas_printBlock : ∀ (stmts : List Stmt) (indent : String), isPlain indent = true →
    Stmt.WellSpelledAll stmts → Commas (Stmt.printBlock indent stmts) 0
  | [], _, _, _ => by
    rw [Stmt.printBlock]
    rfl
  | s :: stmts, indent, hi, ⟨hs, hss⟩ =>
    commas_blockText hi ((s.balanced_print _ (isPlain_indentStep hi) hs).append
      (Stmt.balanced_printAll stmts _ (isPlain_indentStep hi) hss))

end

/-- The kept texts that are printed with no bracket around them have no comma of their own. -/
def Expr.IsOnePiece (indent : String) (e : Expr) : Prop := ∀ t ∈ e.exposed indent, pieces? t = some [t]

section Pieces

variable {indent : String}

theorem isSome_of_mem_exposed {e : Expr} (he : e.WellSpelled) {t : String} (ht : t ∈ e.exposed indent) :
    (pieces? t).isSome = true := by
  fun_induction Expr.exposed indent e with
  | case1 text =>
      rw [List.mem_singleton.mp ht]
      exact he
  | case2 op target value iht ihv =>
      obtain ⟨_, htarget, hvalue⟩ := he
      rcases List.mem_append.mp ht with ht | ht
      · exact iht htarget ht
      · exact ihv hvalue ht
  | case3 => cases ht
  | case4 params value async _ ih => exact ih he.2 ht
  | case5 => cases ht

theorem looseCommas_eq_zero_iff {e : Expr} (he : e.WellSpelled) : e.looseCommas indent = 0 ↔ e.IsOnePiece indent := by
  have hcount : ∀ t ∈ e.exposed indent, looseCount t = 0 ↔ pieces? t = some [t] := by
    intro t ht
    exact (commas_looseCount (isSome_of_mem_exposed he ht)).one_piece_iff.symm
  rw [Expr.looseCommas, List.sum_eq_zero_iff, List.forall_mem_map]
  exact forall₂_congr hcount

theorem pieces_join {α : Type} {text : α → String} {count : α → Nat} {items : List α} (hne : items ≠ [])
    (h : ∀ x ∈ items, Commas (text x) (count x)) :
    ∃ pieces, pieces? (join ", " (items.map text)) = some pieces ∧
      (pieces.length = items.length ↔ ∀ x ∈ items, count x = 0) := by
  have hall : List.Forall₂ Commas (items.map text) (items.map count) := by
    rw [List.forall₂_map_left_iff, List.forall₂_map_right_iff]
    exact List.forall₂_same.mpr h
  obtain ⟨pieces, hpieces, hlength, _⟩ := (commas_join hall (by simpa using hne)).pieces_eq
  have hpos : 0 < items.length := List.length_pos_iff.mpr hne
  have hsum : (items.map count).sum = 0 ↔ ∀ x ∈ items, count x = 0 := by
    rw [List.sum_eq_zero_iff, List.forall_mem_map]
  refine ⟨pieces, hpieces, ?_⟩
  rw [← hsum, hlength, List.length_map]
  omega

theorem pieces_args (hindent : isPlain indent = true) {args : List Expr} (hne : args ≠ [])
    (h : ∀ a ∈ args, a.WellSpelled) :
    ∃ pieces, pieces? (join ", " (Expr.printList indent args)) = some pieces ∧
      (pieces.length = args.length ↔ ∀ a ∈ args, a.IsOnePiece indent) := by
  obtain ⟨pieces, hpieces, hlength⟩ := pieces_join hne fun a ha => a.commas_printIn indent hindent (h a ha)
  rw [printList_eq_map]
  refine ⟨pieces, hpieces, hlength.trans (forall₂_congr fun a ha => looseCommas_eq_zero_iff (h a ha))⟩

theorem pieces_elems (hindent : isPlain indent = true) {elems : List (Option Expr)} (hne : elems ≠ [])
    (h : ∀ e, some e ∈ elems → e.WellSpelled) :
    ∃ pieces, pieces? (join ", " (Expr.printElems indent elems)) = some pieces ∧
      (pieces.length = elems.length ↔ ∀ e, some e ∈ elems → e.IsOnePiece indent) := by
  have hcommas : ∀ elem ∈ elems, Commas (elem.elim "" (Expr.printIn indent)) (elem.elim 0 (Expr.looseCommas indent)) := by
    intro elem hmem
    cases elem with
    | none => exact .nil []
    | some e => exact e.commas_printIn indent hindent (h e hmem)
  obtain ⟨pieces, hpieces, hlength⟩ := pieces_join hne hcommas
  rw [printElems_eq_map]
  refine ⟨pieces, hpieces, hlength.trans ⟨fun hzero e he => ?_, fun hone elem hmem => ?_⟩⟩
  · exact (looseCommas_eq_zero_iff (h e he)).mp (hzero (some e) he)
  · cases elem with
    | none => rfl
    | some e => exact (looseCommas_eq_zero_iff (h e hmem)).mpr (hone e hmem)

theorem pieces_value (hindent : isPlain indent = true) {e : Expr} (h : e.WellSpelled) :
    pieces? (e.printIn indent) = some [e.printIn indent] ↔ e.IsOnePiece indent :=
  (e.commas_printIn indent hindent h).one_piece_iff.trans (looseCommas_eq_zero_iff h)

theorem pieces_body (hindent : isPlain indent = true) {e : Expr} (h : e.WellSpelled) :
    pieces? (arrowBodyText (e.printIn indent)) = some [arrowBodyText (e.printIn indent)] ↔
      startsWith "\x7b" (e.printIn indent) = true ∨ e.IsOnePiece indent := by
  have hbody := commas_arrowBodyText (e.commas_printIn indent hindent h)
  rw [hbody.one_piece_iff, ite_eq_left_iff, looseCommas_eq_zero_iff h]
  exact or_iff_not_imp_left.symm

end Pieces

/-- The commas between arguments, between elements and behind initializers separate what they are to separate exactly if
no text that was kept stands there with a comma of its own. A text that is printed in operand position is in parentheses,
and so is the body of an arrow that starts with a brace. -/
theorem Expr.separated_iff (indent : String) (hindent : isPlain indent = true) :
    (∀ (callee : Expr) (args : List Expr), (∀ a ∈ args, a.WellSpelled) → ∃ text,
      (Expr.call callee args).printIn indent = parensIf callee.isLooseCallee (callee.printIn indent) ++ parens text ∧
      (Expr.optionalCall callee args).printIn indent =
        parensIf callee.isLooseCallee (callee.printIn indent) ++ "?." ++ parens text ∧
      (Expr.new callee args).printIn indent =
        "new " ++ parensIf callee.isLooseConstructor (callee.printIn indent) ++ parens text ∧
      (args = [] → text = "") ∧ (args ≠ [] → ∃ pieces, pieces? text = some pieces ∧
        (pieces.length = args.length ↔ ∀ a ∈ args, a.IsOnePiece indent))) ∧
    (∀ elems : List (Option Expr), (∀ e, some e ∈ elems → e.WellSpelled) → ∃ text,
      (Expr.array elems).printIn indent = brackets text ∧
      (elems = [] → text = "") ∧ (elems ≠ [] → ∃ pieces, pieces? text = some pieces ∧
        (pieces.length = elems.length ↔ ∀ e, some e ∈ elems → e.IsOnePiece indent))) ∧
    (∀ (params : List Pattern) (value : Expr) (async : Bool), value.WellSpelled → ∃ text,
      (Expr.arrow params (.expr value) async).printIn indent =
        asyncText async ++ Pattern.printParams params ++ " => " ++ text ∧
      (pieces? text = some [text] ↔ startsWith "\x7b" (value.printIn indent) = true ∨ value.IsOnePiece indent)) ∧
    ∀ (target : Pattern) (init : Expr), init.WellSpelled → ∃ text,
      Declarator.printList indent [.mk target (some init)] = [target.print ++ " = " ++ text] ∧
      (pieces? text = some [text] ↔ init.IsOnePiece indent) := by
  refine ⟨fun callee args hargs => ?_, fun elems helems => ?_, fun params value async hvalue => ?_, fun target init hinit => ?_⟩
  · exact ⟨_, rfl, rfl, rfl, by rintro rfl; rfl, fun hne => pieces_args hindent hne hargs⟩
  · exact ⟨_, rfl, by rintro rfl; rfl, fun hne => pieces_elems hindent hne helems⟩
  · exact ⟨_, rfl, pieces_body hindent hvalue⟩
  · exact ⟨_, rfl, pieces_value hindent hinit⟩

def guardedArgs : List Expr :=
  [.verbatim "tag`a, $\x7bf(x, y)\x7d`", .arrow [.ident "x"] (.expr (.verbatim "\x7b a, b \x7d, x")) false,
    .binary "+" (.verbatim "a, b") (.literal (.string "c, d")), .assign "=" (.verbatim "[a, b]") (.ident "y")]

theorem wellSpelled_guardedArgs : ∀ a ∈ guardedArgs, a.WellSpelled := by
  have htag : (pieces? "tag`a, $\x7bf(x, y)\x7d`").isSome = true := by decide
  have hbody : (pieces? "\x7b a, b \x7d, x").isSome = true := by decide
  have hpair : (pieces? "a, b").isSome = true := by decide
  have htarget : (pieces? "[a, b]").isSome = true := by decide
  have hx : isPlain "x" = true := by decide
  have hy : isPlain "y" = true := by decide
  simp only [guardedArgs, List.forall_mem_cons]
  refine ⟨htag, ⟨⟨hx, trivial⟩, hbody⟩, ⟨by decide, hpair, trivial⟩, ⟨by decide, htarget, hy⟩, ?_⟩
  simp

theorem separated_guardedArgs :
    (∃ text pieces, (Expr.call (.ident "f") guardedArgs).print = "f" ++ parens text ∧ pieces? text = some pieces ∧
      pieces.length = 4) ∧
    (∃ text pieces, (Expr.array [none, some (.verbatim "log(x), x")]).print = brackets text ∧
      pieces? text = some pieces ∧ pieces.length ≠ 2) ∧
    (∃ text, (Expr.arrow [] (.expr (.verbatim "\x7b a, b \x7d, x")) true).print = "async () => " ++ text ∧
      pieces? text = some [text]) ∧
    ∃ text, Declarator.printList "" [.mk (.ident "y") (some (.assign "=" (.verbatim "[a, b]") (.ident "x")))] =
      ["y = " ++ text] ∧ pieces? text = some [text] := by
  obtain ⟨hcall, harray, harrow, hinit⟩ := Expr.separated_iff "" rfl
  have hone : ∀ a ∈ guardedArgs, ∀ t ∈ a.exposed "", pieces? t = some [t] := by decide
  have hsequence : (pieces? "log(x), x").isSome = true := by decide
  have hbody : (pieces? "\x7b a, b \x7d, x").isSome = true := by decide
  have htarget : (pieces? "[a, b]").isSome = true := by decide
  have hx : isPlain "x" = true := by decide
  refine ⟨?_, ?_, ?_, ?_⟩
  · obtain ⟨text, hprint, _, _, _, hpieces⟩ := hcall (.ident "f") guardedArgs wellSpelled_guardedArgs
    obtain ⟨pieces, heq, hlength⟩ := hpieces (by simp [guardedArgs])
    exact ⟨text, pieces, hprint, heq, hlength.mpr hone⟩
  · have hspelled : ∀ e : Expr, some e ∈ [none, some (.verbatim "log(x), x")] → e.WellSpelled := by
      intro e he
      obtain rfl : e = .verbatim "log(x), x" := by simpa using he
      exact hsequence
    obtain ⟨text, hprint, _, hpieces⟩ := harray _ hspelled
    obtain ⟨pieces, heq, hlength⟩ := hpieces (by simp)
    refine ⟨text, pieces, hprint, heq, fun htwo => ?_⟩
    have hpiece := hlength.mp htwo (.verbatim "log(x), x") (by simp) "log(x), x" (List.mem_singleton_self _)
    exact absurd hpiece (by decide)
  · obtain ⟨text, hprint, hpieces⟩ := harrow [] (.verbatim "\x7b a, b \x7d, x") true hbody
    exact ⟨text, hprint, hpieces.mpr (.inl (by decide))⟩
  · obtain ⟨text, hprint, hpieces⟩ := hinit (.ident "y") (.assign "=" (.verbatim "[a, b]") (.ident "x"))
      ⟨by decide, htarget, hx⟩
    have honePiece : ∀ t ∈ Expr.exposed "" (.assign "=" (.verbatim "[a, b]") (.ident "x")), pieces? t = some [t] := by
      decide
    exact ⟨text, hprint, hpieces.mpr honePiece⟩

/-- A sequence in one place is two arguments, two elements, half a body or a second declarator. -/
theorem sequence_not_separated :
    (Expr.verbatim "log(x), x").WellSpelled ∧
      (Expr.call (.ident "f") [.verbatim "log(x), x"]).print = "f(log(x), x)" ∧
      (Expr.array [some (.verbatim "log(x), x")]).print = "[log(x), x]" ∧
      (Expr.arrow [] (.expr (.verbatim "log(x), x")) false).print = "() => log(x), x" ∧
      Stmt.print "" (.decl .const [.mk (.ident "y") (some (.verbatim "log(x), x"))] none) = "const y = log(x), x;\n" ∧
      pieces? "log(x), x" = some ["log(x)", " x"] := by
  have hspelled : (pieces? "log(x), x").isSome = true := by decide
  exact ⟨hspelled, by decide, by decide +kernel, by decide +kernel, by decide +kernel, by decide +kernel⟩

end Memoizer
