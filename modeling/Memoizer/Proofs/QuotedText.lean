import Mathlib
import Memoizer.Proofs.Nesting
import Memoizer.Proofs.Tokens

namespace Memoizer

open Text

namespace Text.Quoted

theorem toList_escape (s : String) : (escape s).toList = s.toList.flatMap escapeChar := String.toList_ofList

theorem escape_injective {s t : String} (h : s.toList.flatMap escapeChar = t.toList.flatMap escapeChar) : s = t := by
  have hread := Source.read_escape s.toList []
  rw [h, Source.read_escape] at hread
  have hchars : t.toList = s.toList := congrArg Prod.fst (Option.some.inj hread)
  exact (String.toList_inj.mp hchars).symm

theorem getLast?_of_escape_eq {cs front rest : List Char} (h : cs.flatMap escapeChar = front ++ '"' :: rest) :
    front.getLast? = some '\\' := by
  induction cs generalizing front with
  | nil => exact absurd h.symm (by simp)
  | cons c cs ih =>
      rw [List.flatMap_cons] at h
      rcases Nesting.escapeChar_cases c with ⟨d, hescape⟩ | ⟨hplain, _, hquote⟩
      · rw [hescape] at h
        match front with
        | [] => exact absurd (List.cons.inj h).1 (by decide)
        | [x] =>
            obtain ⟨rfl, _⟩ := List.cons.inj h
            rfl
        | x :: y :: front =>
            obtain ⟨_, htail⟩ := List.cons.inj h
            have hlast := ih (List.cons.inj htail).2
            rw [List.getLast?_cons_cons, List.getLast?_cons, hlast]
            rfl
      · rw [hplain] at h
        match front with
        | [] => exact absurd (List.cons.inj h).1 hquote
        | x :: front =>
            have hlast := ih (List.cons.inj h).2
            rw [List.getLast?_cons, hlast]
            rfl

/-- A quoted text at the end is known if its opening quote does not follow a backslash. -/
theorem eq_of_append_quote {p q s t : String} (hp : p.toList.getLast? ≠ some '\\') (hq : q.toList.getLast? ≠ some '\\')
    (h : p ++ quote s = q ++ quote t) : s = t := by
  have hlists := congrArg String.toList h
  rw [String.toList_append, String.toList_append, Source.toList_quote, Source.toList_quote, ← List.cons_append,
    ← List.cons_append, ← List.append_assoc, ← List.append_assoc, List.append_cancel_right_eq] at hlists
  -- Whichever text is longer in front would have its opening quote inside the other one's escaped text.
  have hinside {p q s t : String} (hq : q.toList.getLast? ≠ some '\\') {more : List Char} (hmore : q.toList = p.toList ++ more)
      (hs : '"' :: s.toList.flatMap escapeChar = more ++ '"' :: t.toList.flatMap escapeChar) : s = t := by
    cases more with
    | nil => exact escape_injective (List.cons.inj hs).2
    | cons c more =>
        have hlast := getLast?_of_escape_eq (List.cons.inj hs).2
        refine absurd ?_ hq
        rw [hmore, List.getLast?_append, List.getLast?_cons, hlast]
        rfl
  rcases List.append_eq_append_iff.mp hlists with ⟨more, hmore, hs⟩ | ⟨more, hmore, ht⟩
  · exact hinside hq hmore hs
  · exact (hinside hp hmore ht).symm

theorem quote_injective : Function.Injective quote := by
  intro s t h
  have hempty : "".toList.getLast? ≠ some '\\' := by simp
  refine eq_of_append_quote hempty hempty ?_
  rw [h]

end Text.Quoted

theorem Import.print_eq (i : Import) : ∃ front, i.print = front ++ " " ++ Quoted.quote i.source ++ ";\n" := by
  rw [Import.print]
  split
  · exact ⟨"import", rfl⟩
  · refine ⟨"import " ++ join ", " i.parts ++ " from", ?_⟩
    simp only [String.append_assoc]
    rfl

theorem Import.source_eq_of_print_eq {i j : Import} (h : i.print = j.print) : i.source = j.source := by
  obtain ⟨front, hi⟩ := i.print_eq
  obtain ⟨front', hj⟩ := j.print_eq
  rw [hi, hj, String.append_left_inj] at h
  have hblank (front : String) : (front ++ " ").toList.getLast? ≠ some '\\' := by simp
  exact Quoted.eq_of_append_quote (hblank front) (hblank front') h

section Members

theorem brackets_quote_injective : Function.Injective fun s => brackets (Quoted.quote s) := by
  intro s t h
  simp only [brackets, String.append_left_inj, String.append_right_inj] at h
  exact Quoted.quote_injective h

theorem not_isName_brackets (s : String) : isName (brackets s) = false := by
  have hlist : (brackets s).toList = '[' :: (s ++ "]").toList := by
    rw [brackets, String.append_assoc, String.toList_append]
    rfl
  rw [isName, hlist]
  rfl

theorem point_ne_brackets (s t : String) : "." ++ s ≠ brackets t := by
  intro h
  have hheads := congrArg (fun text => text.toList.head?) h
  simp [brackets] at hheads

theorem memberText_injective (object : String) : Function.Injective (memberText object) := by
  intro s t h
  rw [memberText, memberText] at h
  split at h <;> split at h
  · exact (String.append_right_inj _).mp h
  · rw [String.append_assoc, String.append_right_inj] at h
    exact absurd h (point_ne_brackets _ _)
  · rw [String.append_assoc, String.append_right_inj] at h
    exact absurd h.symm (point_ne_brackets _ _)
  · exact brackets_quote_injective ((String.append_right_inj _).mp h)

theorem optionalMemberText_injective (object : String) : Function.Injective (optionalMemberText object) := by
  intro s t h
  rw [optionalMemberText, optionalMemberText] at h
  split at h <;> split at h
  · exact (String.append_right_inj _).mp h
  next hs _ =>
    rw [(String.append_right_inj _).mp h, not_isName_brackets] at hs
    cases hs
  next _ ht =>
    rw [← (String.append_right_inj _).mp h, not_isName_brackets] at ht
    cases ht
  · exact brackets_quote_injective ((String.append_right_inj _).mp h)

end Members

/-- Reading stops at the closing quote and nowhere earlier: between the quotes every text reads as itself, and what stands
behind is left alone. So a text is known from its quoted form, wherever that is printed. -/
theorem quoted_reads_back :
    (∀ (s : String) (rest : List Char), Quoted.read '"' ((Quoted.escape s).toList ++ '"' :: rest) = some (s.toList, rest)) ∧
      (∀ (s : String) (rest : List Char),
        Source.lex ('"' :: ((Quoted.escape s).toList ++ '"' :: rest)) = (.string s, (Quoted.escape s).toList.length + 2)) ∧
      Function.Injective (fun s => (Literal.string s).print) ∧ Function.Injective (fun s => (PropKey.string s).print) ∧
      (∀ object, Function.Injective (memberText object) ∧ Function.Injective (optionalMemberText object)) ∧
      ∀ i j : Import, i.print = j.print → i.source = j.source := by
  refine ⟨fun s rest => ?_, fun s rest => ?_, Quoted.quote_injective, Quoted.quote_injective,
    fun object => ⟨memberText_injective object, optionalMemberText_injective object⟩, fun _ _ => Import.source_eq_of_print_eq⟩
  · rw [Quoted.toList_escape]
    exact Source.read_escape s.toList rest
  · have hlex := (Source.lexes_quote s rest).lex_eq
    rw [Source.toList_quote, List.cons_append, List.append_assoc, List.singleton_append] at hlex
    rw [Quoted.toList_escape, hlex]
    simp

/-- Two names that are imported by default print like one with a comma in it. -/
def twoDefaults : Import where
  source := "C:\\\""
  specs := [.default "a", .default "b"]

def oneDefault : Import where
  source := "C:\\\""
  specs := [.default "a, b"]

theorem slashed_source_reads_back : twoDefaults.print = "import a, b from \"C:\\\\\\\"\";\n" ∧
    twoDefaults.print = oneDefault.print ∧ twoDefaults.source = oneDefault.source ∧
    Quoted.read '"' ("C:\\\\\\\"".toList ++ '"' :: ";\n".toList) = some (twoDefaults.source.toList, ";\n".toList) := by
  obtain ⟨hread, _, _, _, _, hsource⟩ := quoted_reads_back
  have hprint : twoDefaults.print = oneDefault.print := by decide
  have hescape : Quoted.escape twoDefaults.source = "C:\\\\\\\"" := by decide
  have hsame := hread twoDefaults.source ";\n".toList
  rw [hescape] at hsame
  exact ⟨by decide, hprint, hsource _ _ hprint, hsame⟩

end Memoizer
