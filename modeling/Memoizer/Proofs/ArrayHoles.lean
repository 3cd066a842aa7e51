import Mathlib
import Memoizer.Proofs.ExpressionReader
import Memoizer.Proofs.NumberText

namespace Memoizer

open Source
open Operators (toList_brackets)

/-- Names, literals and arrays of them with holes, in any nesting. -/
inductive Expr.IsItem : Expr → Prop
  | ident {name : String} (hname : IsVariableName name) : IsItem (.ident name)
  | literal (value : Literal) : IsItem (.literal value)
  | array {elems : List (Option Expr)} (h : ∀ e, some e ∈ elems → IsItem e) : IsItem (.array elems)

def Number.literalRead (x : Number) : Expr :=
  if x.isNaN then .ident "NaN"
  else
    let value : Expr := if x.isFinite then .literal (.number x.magnitude) else .ident "inf"
    if x.isNegative = true ∧ x.wholePart? ≠ some 0 then .unary "-" value else value

def endsWithHole (elems : List (Option Expr)) : Bool := elems.getLast?.any Option.isNone

def withoutLastHole (elems : List (Option Expr)) : List (Option Expr) :=
  if endsWithHole elems then elems.dropLast else elems

mutual

/-- What a printed item is read as. -/
def Expr.itemRead : Expr → Expr
  | .literal (.number x) => x.literalRead
  | .array elems => .array (withoutLastHole (Expr.elemsRead elems))
  | e => e

def Expr.elemsRead : List (Option Expr) → List (Option Expr)
  | [] => []
  | none :: elems => none :: Expr.elemsRead elems
  | some e :: elems => some e.itemRead :: Expr.elemsRead elems

end

section Leaves

variable {ctx : Context} {c : Cursor} {rest : List Char} {value : Literal}

def Literal.token : Literal → Token
  | .null => .name "null" false
  | .bool true => .name "true" false
  | .bool false => .name "false" false
  | .number x => .number x
  | .string text => .string text

theorem Literal.startsOperand_token (value : Literal) : startsOperand value.token = true := by
  cases value with
  | bool value => cases value <;> decide
  | null => decide
  | _ => rfl

theorem literalNode_of (hat : c.IsAt value.token rest) (form : Form) : literalNode c.here value form ctx c =
    some ({ start := c.here, expr := .literal value, form }, Cursor.of rest) := by
  rw [literalNode, bind_of advance_run, hat.advance_eq]
  rfl

theorem primary_literal (g : Grammar) (ctx : Context) (hat : c.IsAt value.token rest) (hrest : Follows rest) :
    ∃ form, form ≠ .chain ∧ primary g ctx c = literalNode c.here value form ctx c := by
  cases value with
  | null =>
      refine ⟨.other, by decide, ?_⟩
      rw [primary_word hat, wordNode, bind_of (function?_none (by decide) hat hrest)]
  | bool value =>
      refine ⟨.other, by decide, ?_⟩
      cases value <;> rw [primary_word hat, wordNode, bind_of (function?_none (by decide) hat hrest)]
  | number x =>
      refine ⟨.other, by decide, ?_⟩
      rw [primary, bind_of start_run, bind_of get_run, hat.token_eq]
      rfl
  | string text =>
      refine ⟨.string, by decide, ?_⟩
      rw [primary, bind_of start_run, bind_of get_run, hat.token_eq]
      rfl

theorem headReads_literal {t : String} (hopens : ∃ d cs, t.toList = d :: cs ∧ startsBlank d = false)
    (hlexes : ∀ rest, Closes rest → Lexes t.toList rest value.token) : HeadReads t (.literal value) := by
  refine ⟨hopens, fun c rest hrest hc => ?_, fun g ctx c rest hrest hc => ?_,
    fun depth ctx c rest _ _ hrest hc => ?_⟩
  · rw [((hlexes rest hrest).isAt hc).token_eq]
    exact value.startsOperand_token
  · have hat := (hlexes rest hrest).isAt hc
    cases value with
    | bool value => cases value <;> exact namedHead?_closed hat hrest
    | null => exact namedHead?_closed hat hrest
    | _ => exact namedHead?_other hat fun _ _ => Token.noConfusion
  · have hat := (hlexes rest hrest).isAt hc
    have hnew : value.token ≠ .name "new" false := by
      cases value with
      | bool value => cases value <;> decide
      | null => decide
      | _ => exact Token.noConfusion
    obtain ⟨form, hform, hprimary⟩ := primary_literal (grammar depth) ctx hat hrest.follows
    rw [literalNode_of hat] at hprimary
    refine ⟨{ start := c.here, expr := .literal value, form }, ⟨rfl, rfl, rfl, hform⟩, ?_⟩
    rw [head_eq_primary hat hnew, hprimary]

theorem head?_ne_point (h : Closes rest) : rest.head? ≠ some '.' := by
  cases h with
  | nil => decide
  | cons hop rest =>
      simp only [List.mem_cons, List.not_mem_nil, or_false] at hop
      rcases hop with rfl | rfl | rfl <;> exact fun h => absurd (Option.some.inj h) (by decide)

theorem isVariableName_inf : IsVariableName "inf" := ⟨by decide, by decide⟩

theorem headReads_magnitude (x : Number) (hnan : x.isNaN = false) :
    HeadReads x.magnitude.format (if x.isFinite then .literal (.number x.magnitude) else .ident "inf") ∧
      ∀ d ∈ x.magnitude.format.toList.head?, d ∉ punctuatorTails := by
  have hneg := isNegative_magnitude x
  cases hfinite : x.isFinite with
  | true =>
      rw [← isFinite_magnitude] at hfinite
      obtain ⟨d, cs, hchars, hd⟩ := head_format hneg hfinite
      refine ⟨headReads_literal ⟨d, cs, hchars, (digit_class hd).2.2.1⟩ fun rest hrest => ?_, ?_⟩
      · exact lexes_format hneg hfinite hrest.ends (head?_ne_point hrest)
      · rw [hchars]
        rintro c ⟨⟩
        exact not_mem_tails_of_isNameChar (by simp [Text.isNameChar, Char.isAlphanum, hd])
  | false =>
      have htext : x.magnitude.format = "inf" := by
        rw [Number.format, isNaN_magnitude, hnan, isFinite_magnitude, hfinite, Number.signText, hneg]
        rfl
      rw [htext]
      exact ⟨headReads_variable isVariableName_inf, by rintro d ⟨⟩; decide⟩

theorem readsAs_number (x : Number) : ReadsAs x.format x.literalRead := by
  cases hnan : x.isNaN with
  | true =>
      have hname : IsVariableName "NaN" := ⟨by decide, by decide⟩
      rw [Number.format, Number.literalRead, hnan]
      exact (headReads_variable hname).readsAs
  | false =>
      obtain ⟨hread, htail⟩ := headReads_magnitude x hnan
      rw [format_eq hnan, Number.literalRead, hnan]
      simp only [Bool.false_eq_true, if_false]
      by_cases hsign : x.isNegative = true ∧ x.wholePart? ≠ some 0
      · rw [if_pos hsign, if_pos hsign]
        exact hread.minus htail
      · rw [if_neg hsign, if_neg hsign, String.empty_append]
        exact hread.readsAs

theorem readsAs_word {word : String} (hname : Text.isName word = true) (htoken : value.token = .name word false) :
    ReadsAs word (.literal value) := by
  obtain ⟨d, cs, hchars, hd⟩ := opens_of_isNameText (isNameText_of_isName hname)
  refine (headReads_literal ⟨d, cs, hchars, startsBlank_of_isNameStart hd⟩ fun rest hrest => ?_).readsAs
  rw [htoken]
  exact lexes_name hname hrest.ends

theorem readsAs_literal (value : Literal) :
    ReadsAs ((Expr.literal value).printIn "") (Expr.literal value).itemRead := by
  cases value with
  | null => exact readsAs_word (by decide) rfl
  | bool value =>
      cases value with
      | true => exact readsAs_word (by decide) rfl
      | false => exact readsAs_word (by decide) rfl
  | number x => exact readsAs_number x
  | string text =>
      have hopens : (Text.Quoted.quote text).toList = '"' :: _ := toList_quote text
      have hlexes : ∀ rest, Lexes (Text.Quoted.quote text).toList rest (Literal.string text).token := lexes_quote text
      exact (headReads_literal ⟨'"', _, hopens, by decide⟩ fun rest _ => hlexes rest).readsAs

end Leaves

section Arrays

variable {ctx : Context} {c : Cursor} {rest : List Char} {texts : List String} {values : List (Option Expr)}
  {depth : Nat}

/-- The text of an element or of a hole, with what it is read as. -/
inductive ReadsItem : String → Option Expr → Prop
  | hole : ReadsItem "" none
  | elem {t : String} {e : Expr} (h : ReadsAs t e) : ReadsItem t (some e)

def arrayStep (g : Grammar) (elems : Items (Option Expr)) : Reader (Items (Option Expr) ⊕ Items (Option Expr)) := do
  if ← skipPunct "]" then return .inr elems
  if ← skipPunct "," then return .inl (elems.push none true false)
  let isSpread ← skipPunct "..."
  let node ← enclosed g.assign
  let elems :=
    if isSpread then elems.push (some (.spread node.expr)) node.target.isValid node.pending
    else elems.push (some node.expr) node.isElement node.pending
  closeOrComma "]" (return .inr elems) (return .inl (if isSpread then elems.unfit else elems))

theorem arrayLiteral_eq (g : Grammar) : arrayLiteral g = start >>= fun m => punct "[" >>= fun _ =>
    iterate (arrayStep g) {} >>= fun elems => elems.target m >>= fun target =>
      pure { start := m, expr := .array elems.items, target, pending := elems.pending } := rfl

theorem arrayStep_close {g : Grammar} (hc : c.Stands (']' :: rest)) (elems : Items (Option Expr)) :
    arrayStep g elems ctx c = some (.inr elems, Cursor.of rest) := by
  have hclose : skipPunct "]" ctx c = some (true, Cursor.of rest) := skipPunct_bracket (by decide) hc
  rw [arrayStep, bind_of hclose]
  rfl

theorem arrayStep_hole {g : Grammar} (hc : c.Stands (',' :: rest)) (elems : Items (Option Expr)) :
    arrayStep g elems ctx c = some (.inl (elems.push none true false), Cursor.of rest) := by
  have hgoes : skipPunct "]" ctx c = some (false, c) := skipPunct_other "," (by decide) (by decide) hc
  have hcomma : skipPunct "," ctx c = some (true, Cursor.of rest) := skipPunct_bracket (by decide) hc
  rw [arrayStep, bind_of hgoes]
  simp only [Bool.false_eq_true, if_false]
  rw [bind_of hcomma]
  rfl

theorem arrayStep_elem {t : String} {e : Expr} (h : ReadsAs t e) (hdepth : t.toList.length ≤ depth) (hctx : ctx.IsPlain)
    (hrest : Closes rest) (hc : c.Stands (t.toList ++ rest)) (elems : Items (Option Expr)) :
    ∃ fits, arrayStep (grammar (depth + 1)) elems ctx c =
      closeOrComma "]" (pure (.inr (elems.push (some e) fits false))) (pure (.inl (elems.push (some e) fits false)))
        ctx (Cursor.of rest) := by
  obtain ⟨node, hnode, hassign⟩ := h.assign_eq depth _ c rest hdepth hctx.enclosed hrest hc
  have hitem : enclosed (grammar (depth + 1)).assign ctx c = some (node, Cursor.of rest) := hassign
  refine ⟨node.isElement, ?_⟩
  rw [arrayStep, bind_of (h.skipPunct_none hrest hc (by decide))]
  simp only [Bool.false_eq_true, if_false]
  rw [bind_of (h.skipPunct_none hrest hc (by decide))]
  simp only [Bool.false_eq_true, if_false]
  rw [bind_of (h.skipPunct_none hrest hc (by decide)), bind_of hitem, hnode.expr_eq, hnode.settled]
  rfl

theorem ReadsItem.stands_blank {t : String} {value : Option Expr} (h : ReadsItem t value) (texts : List String)
    (rest : List Char) : (Cursor.of (' ' :: ((Text.join ", " (t :: texts)).toList ++ ']' :: rest))).Stands
      ((Text.join ", " (t :: texts)).toList ++ ']' :: rest) := by
  cases h with
  | hole =>
      cases texts with
      | nil => exact Cursor.stands_blank (by decide) _
      | cons u texts => rw [toList_join_next]; exact Cursor.stands_blank (by decide) _
  | elem h =>
      have hcloses : Closes (']' :: rest) := @Closes.cons "]" (by decide) rest
      obtain ⟨rest', hmore, -⟩ := join_split t texts hcloses
      rw [hmore]
      exact h.stands_blank rest'

theorem withoutLastHole_cons {value : Option Expr} {values : List (Option Expr)} (h : values ≠ []) :
    withoutLastHole (value :: values) = value :: withoutLastHole values := by
  have hends : endsWithHole (value :: values) = endsWithHole values := by
    rw [endsWithHole, endsWithHole, List.getLast?_cons_of_ne_nil h]
  rw [withoutLastHole, withoutLastHole, hends, List.dropLast_cons_of_ne_nil h]
  split <;> rfl

/-- An element or hole with a comma behind it is one step. -/
theorem ReadsItem.arrayStep_eq {t : String} {value : Option Expr} (h : ReadsItem t value) (ht : t.toList.length ≤ depth)
    (hctx : ctx.IsPlain) (hc : c.Stands (t.toList ++ ',' :: rest)) (done : Items (Option Expr)) :
    ∃ fits, arrayStep (grammar (depth + 1)) done ctx c = some (.inl (done.push value fits false), Cursor.of rest) := by
  cases h with
  | hole => exact ⟨true, arrayStep_hole hc done⟩
  | elem h =>
      have hcloses : Closes (',' :: rest) := @Closes.cons "," (by decide) rest
      obtain ⟨fits, hstep⟩ := arrayStep_elem h ht hctx hcloses hc done
      exact ⟨fits, hstep.trans (closeOrComma_comma (by decide))⟩

theorem ReadsItem.left_lt {t : String} {value : Option Expr} (h : ReadsItem t value) {more : List Char}
    (hc : c.Stands (t.toList ++ ',' :: ' ' :: more)) : (Cursor.of (' ' :: more)).here.left < c.here.left := by
  cases h with
  | hole =>
      have hat : c.IsAt (.punct ",") (' ' :: more) := (@lexes_bracket "," (by decide) _).isAt hc
      exact (Cursor.left_le _).trans_lt hat.left_lt
  | elem h =>
      obtain ⟨d, cs, ht, hd⟩ := h.opens
      rw [ht] at hc
      exact hc.left_lt hd

theorem iterate_elements (hall : List.Forall₂ ReadsItem texts values) (hctx : ctx.IsPlain)
    (hdepth : ∀ s ∈ texts, s.toList.length ≤ depth)
    (hc : c.Stands ((Text.join ", " texts).toList ++ ']' :: rest)) (done : Items (Option Expr))
    (hdone : done.pending = false) :
    ∃ elems, elems.items = done.items ++ withoutLastHole values ∧ elems.pending = false ∧
      iterate (arrayStep (grammar (depth + 1))) done ctx c = some (elems, Cursor.of rest) := by
  induction hall generalizing done c with
  | nil => exact ⟨done, (List.append_nil _).symm, hdone, iterate_stop (arrayStep_close hc done)⟩
  | @cons t value texts values h hall ih =>
      obtain ⟨ht, hdepth⟩ := List.forall_mem_cons.mp hdepth
      have hpushed : ∀ fits, (done.push value fits false).pending = false := fun _ => by
        rw [Items.push, hdone]
        rfl
      cases hall with
      | nil =>
          -- a hole at the end leaves no text in front of the bracket
          cases h with
          | hole => exact ⟨done, (List.append_nil _).symm, hdone, iterate_stop (arrayStep_close hc done)⟩
          | @elem _ e h =>
              have hcloses : Closes (']' :: rest) := @Closes.cons "]" (by decide) rest
              obtain ⟨fits, hstep⟩ := arrayStep_elem h ht hctx hcloses hc done
              exact ⟨done.push (some e) fits false, rfl, hpushed fits,
                iterate_stop (hstep.trans (closeOrComma_close "]" (by decide)))⟩
      | @cons u next texts values hu hall =>
          have hblank := hu.stands_blank texts rest
          rw [toList_join_next] at hc
          obtain ⟨fits, hstep⟩ := h.arrayStep_eq ht hctx hc done
          obtain ⟨elems, hitems, hpending, hrun⟩ := ih hdepth hblank (done.push value fits false) (hpushed fits)
          refine ⟨elems, ?_, hpending, by rw [iterate_step hstep (h.left_lt hc), hrun]⟩
          rw [hitems, withoutLastHole_cons (List.cons_ne_nil _ _), Items.push, List.append_assoc]
          rfl

theorem target_run {α : Type} (items : Items α) (m : Mark) (ctx : Context) (c : Cursor) :
    ∃ target, items.target m ctx c = some (target, c) := by
  cases hfits : items.fits with
  | true => exact ⟨_, by rw [Items.target, hfits]; rfl⟩
  | false => exact ⟨_, by rw [Items.target, hfits]; rfl⟩

theorem headReads_array (hall : List.Forall₂ ReadsItem texts values) :
    HeadReads (Text.brackets (Text.join ", " texts)) (.array (withoutLastHole values)) := by
  have hat : ∀ (c : Cursor) (rest : List Char), c.Stands ((Text.brackets (Text.join ", " texts)).toList ++ rest) →
      c.IsAt (.punct "[") ((Text.join ", " texts).toList ++ ']' :: rest) := by
    intro c rest hc
    rw [toList_brackets, List.cons_append, List.append_assoc, List.singleton_append] at hc
    exact (@lexes_bracket "[" (by decide) _).isAt hc
  refine ⟨⟨'[', _, toList_brackets _, by decide⟩, fun c rest _ hc => ?_, fun g ctx c rest _ hc => ?_,
    fun depth ctx c rest hdepth hctx _ hc => ?_⟩
  · rw [(hat c rest hc).token_eq]
    rfl
  · exact namedHead?_other (hat c rest hc) fun _ _ => Token.noConfusion
  · have hopen := hat c rest hc
    rw [toList_brackets, List.length_cons, List.length_append] at hdepth
    obtain ⟨depth, rfl⟩ : ∃ d, depth = d + 1 := ⟨depth - 1, by omega⟩
    have hbracket : punct "[" ctx c = some ((), Cursor.of ((Text.join ", " texts).toList ++ ']' :: rest)) := by
      rw [punct_of (by rw [Cursor.isPunct, hopen.token_eq]; rfl), hopen.advance_eq]
    have hinner : (Text.join ", " texts).toList.length ≤ depth := by omega
    obtain ⟨elems, hitems, hpending, hrun⟩ := iterate_elements hall hctx (fun s hs => (length_le_join hs).trans hinner)
      (Cursor.stands_of _) {} rfl
    obtain ⟨target, htarget⟩ := target_run elems c.here ctx (Cursor.of rest)
    refine ⟨{ start := c.here, expr := .array elems.items, target, pending := elems.pending },
      ⟨by rw [hitems]; rfl, hpending, rfl, Form.noConfusion⟩, ?_⟩
    rw [head_eq_primary hopen (by decide), primary, bind_of start_run, bind_of get_run, hopen.token_eq]
    simp only
    rw [arrayLiteral_eq, bind_of start_run, bind_of hbracket, bind_of hrun, bind_of htarget]
    rfl

end Arrays

section Items

variable {e : Expr} {elems : List (Option Expr)}

theorem elemsRead_reads (h : ∀ e, some e ∈ elems → ReadsAs (e.printIn "") e.itemRead) :
    List.Forall₂ ReadsItem (Expr.printElems "" elems) (Expr.elemsRead elems) := by
  induction elems with
  | nil => exact .nil
  | cons elem elems ih =>
      have htail := ih fun e he => h e (List.mem_cons_of_mem _ he)
      cases elem with
      | none =>
          rw [Expr.printElems, Expr.elemsRead]
          exact .cons .hole htail
      | some e =>
          rw [Expr.printElems, Expr.elemsRead]
          exact .cons (.elem (h e (List.mem_cons_self ..))) htail

theorem Expr.IsItem.readsAs (h : e.IsItem) : ReadsAs (e.printIn "") e.itemRead := by
  induction h with
  | ident hname => exact (headReads_variable hname).readsAs
  | literal value => exact readsAs_literal value
  | array _ ih =>
      rw [Expr.printIn, Expr.itemRead]
      exact (headReads_array (elemsRead_reads ih)).readsAs

mutual

/-- No array in the item ends with a hole, and its numbers are finite and have no sign. -/
def Expr.keepsHoles : Expr → Bool
  | .literal (.number x) => x.isFinite && !x.isNegative
  | .array elems => !endsWithHole elems && Expr.keepsElems elems
  | _ => true

def Expr.keepsElems : List (Option Expr) → Bool
  | [] => true
  | none :: elems => Expr.keepsElems elems
  | some e :: elems => e.keepsHoles && Expr.keepsElems elems

end

theorem literalRead_eq_iff (x : Number) :
    x.literalRead = .literal (.number x) ↔ x.isFinite = true ∧ x.isNegative = false := by
  rw [← magnitude_eq_iff, Number.literalRead]
  constructor
  · intro h
    split_ifs at h with _ hfinite
    exact ⟨hfinite, Literal.number.inj (Expr.literal.inj h)⟩
  · rintro ⟨hfinite, hneg⟩
    rw [isNaN_of_isFinite hfinite, hfinite, hneg, (magnitude_eq_iff x).mp hneg]
    simp

theorem withoutLastHole_of_kept {values : List (Option Expr)} (h : endsWithHole values = false) :
    withoutLastHole values = values := by
  rw [withoutLastHole, h, if_neg Bool.false_ne_true]

theorem kept_of_length_eq {values : List (Option Expr)} (h : (withoutLastHole values).length = values.length) :
    endsWithHole values = false := by
  by_contra hends
  rw [Bool.not_eq_false] at hends
  have hne : values ≠ [] := by
    rintro rfl
    cases hends
  have hlength : 0 < values.length := List.length_pos_of_ne_nil hne
  rw [withoutLastHole, hends, if_pos rfl, List.length_dropLast] at h
  omega

theorem elemsRead_eq_map (elems : List (Option Expr)) :
    Expr.elemsRead elems = elems.map (Option.map Expr.itemRead) := by
  induction elems with
  | nil => rfl
  | cons elem elems ih => cases elem <;> rw [Expr.elemsRead, ih] <;> rfl

theorem endsWithHole_elemsRead (elems : List (Option Expr)) :
    endsWithHole (Expr.elemsRead elems) = endsWithHole elems := by
  rw [elemsRead_eq_map, endsWithHole, endsWithHole, List.getLast?_map, Option.any_map]
  congr 1
  funext elem
  cases elem <;> rfl

theorem elemsRead_eq_iff (h : ∀ e, some e ∈ elems → (e.itemRead = e ↔ e.keepsHoles = true)) :
    Expr.elemsRead elems = elems ↔ Expr.keepsElems elems = true := by
  induction elems with
  | nil => exact ⟨fun _ => rfl, fun _ => rfl⟩
  | cons elem elems ih =>
      have htail := ih fun e he => h e (List.mem_cons_of_mem _ he)
      cases elem with
      | none => rw [Expr.elemsRead, Expr.keepsElems, List.cons_inj_right, htail]
      | some e =>
          rw [Expr.elemsRead, Expr.keepsElems, List.cons.injEq, Option.some.injEq, h e (List.mem_cons_self ..), htail,
            Bool.and_eq_true]

theorem Expr.IsItem.itemRead_eq_iff (h : e.IsItem) : e.itemRead = e ↔ e.keepsHoles = true := by
  induction h with
  | ident _ => exact ⟨fun _ => rfl, fun _ => rfl⟩
  | literal value =>
      cases value with
      | number x =>
          rw [Expr.itemRead, Expr.keepsHoles, literalRead_eq_iff, Bool.and_eq_true, Bool.not_eq_true']
      | _ => exact ⟨fun _ => rfl, fun _ => rfl⟩
  | @array elems _ ih =>
      rw [Expr.itemRead, Expr.keepsHoles, Expr.array.injEq, Bool.and_eq_true, Bool.not_eq_true', ← elemsRead_eq_iff ih,
        ← endsWithHole_elemsRead]
      constructor
      · intro hread
        have hkept : endsWithHole (Expr.elemsRead elems) = false := by
          apply kept_of_length_eq
          rw [hread, elemsRead_eq_map, List.length_map]
        rw [withoutLastHole_of_kept hkept] at hread
        exact ⟨hkept, hread⟩
      · rintro ⟨hkept, hread⟩
        rw [withoutLastHole_of_kept hkept, hread]

theorem Expr.IsItem.readExpr_print (h : e.IsItem) : readExpr e.print = some e.itemRead := h.readsAs.readExpr_eq

/-- Printed and read back, an array has the elements and holes it had, unless it or an array in it ends with a hole or a
number in it has a sign or is not finite. The hole at the end is lost then, and the number is read as another
expression. -/
theorem Expr.array_reads_back_iff (h : ∀ e, some e ∈ elems → e.IsItem) :
    readExpr (Expr.array elems).print = some (.array (withoutLastHole (Expr.elemsRead elems))) ∧
      (readExpr (Expr.array elems).print = some (.array elems) ↔ (Expr.array elems).keepsHoles = true) := by
  have hitem : (Expr.array elems).IsItem := .array h
  have hread : readExpr (Expr.array elems).print = some (.array (withoutLastHole (Expr.elemsRead elems))) := by
    rw [hitem.readExpr_print, Expr.itemRead]
  refine ⟨hread, ?_⟩
  rw [hitem.readExpr_print, Option.some.injEq]
  exact hitem.itemRead_eq_iff

theorem isVariableName_a : IsVariableName "a" := ⟨by decide, by decide⟩

def oneAndHalf : Number := ⟨0x3FF8000000000000⟩

/-- The array `[, a, , [, 1.5], "b"]`. -/
def holedArray : List (Option Expr) :=
  [none, some (.ident "a"), none, some (.array [none, some (.literal (.number oneAndHalf))]),
    some (.literal (.string "b"))]

theorem isItem_holedArray (e : Expr) (h : some e ∈ holedArray) : e.IsItem := by
  simp only [holedArray, List.mem_cons, List.not_mem_nil, or_false, Option.some.injEq, reduceCtorEq, false_or] at h
  rcases h with rfl | rfl | rfl
  · exact .ident isVariableName_a
  · refine .array fun e he => ?_
    simp only [List.mem_cons, List.not_mem_nil, or_false, Option.some.injEq, reduceCtorEq, false_or] at he
    subst he
    exact .literal _
  · exact .literal _

theorem holedArray_reads_back : (∀ e, some e ∈ holedArray → e.IsItem) ∧
    (Expr.array holedArray).print = "[, a, , [, 1.5], \"b\"]" ∧
    readExpr (Expr.array holedArray).print = some (.array holedArray) :=
  ⟨isItem_holedArray, by decide +kernel, (Expr.array_reads_back_iff isItem_holedArray).2.mpr (by decide)⟩

def lastHole : List (Option Expr) := [some (.ident "a"), none]

/-- The printed text has one element. -/
theorem lastHole_misread : (Expr.array lastHole).IsItem ∧ (Expr.array lastHole).print = "[a, ]" ∧
    readExpr (Expr.array lastHole).print = some (.array [some (.ident "a")]) ∧
    readExpr (Expr.array lastHole).print ≠ some (.array lastHole) := by
  have hitem : (Expr.array lastHole).IsItem := by
    refine .array fun e he => ?_
    simp only [lastHole, List.mem_cons, List.not_mem_nil, or_false, Option.some.injEq, reduceCtorEq] at he
    subst he
    exact .ident isVariableName_a
  have hread : readExpr (Expr.array lastHole).print = some (.array [some (.ident "a")]) := hitem.readExpr_print
  refine ⟨hitem, by decide, hread, ?_⟩
  rw [hread]
  simp [lastHole]

end Items

end Memoizer
