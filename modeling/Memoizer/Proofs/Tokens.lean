import Mathlib
import Memoizer.Number.Format
import Memoizer.Proofs.Number
import Memoizer.Source.Token
import Memoizer.Text.Name

namespace Memoizer.Source

def nextToken (cs : List Char) : Option (Token × List Char × List Char) :=
  (skipBlanks .code false 0 cs).map fun blanks =>
    let here := cs.drop blanks.2
    ((lex here).1, here, here.drop (lex here).2)

theorem length_here_le {cs here rest : List Char} {token : Token} (h : nextToken cs = some (token, here, rest)) :
    here.length ≤ cs.length := by
  rw [nextToken, Option.map_eq_some_iff] at h
  obtain ⟨blanks, _, heq⟩ := h
  cases heq
  rw [List.length_drop]
  exact Nat.sub_le _ _

theorem skipBlanks_add (mode : BlankMode) (newline : Bool) (taken k : Nat) (cs : List Char) :
    skipBlanks mode newline (taken + k) cs = (skipBlanks mode newline taken cs).map fun p => (p.1, p.2 + k) := by
  fun_induction skipBlanks mode newline taken cs with
  | case8 newline taken c cs hend hspace hline hblock =>
      rw [skipBlanks, if_neg hend, if_neg hspace, if_neg hline, if_neg hblock]
      rfl
  | _ => simp_all [skipBlanks, Nat.add_right_comm]

theorem nextToken_blank (cs : List Char) : nextToken (' ' :: cs) = nextToken cs := by
  have hblank : skipBlanks .code false 0 (' ' :: cs) = skipBlanks .code false (0 + 1) cs := rfl
  rw [nextToken, nextToken, hblank, skipBlanks_add, Option.map_map]
  rfl

/-- In front of `rest`, the text is one token with no blank before it. -/
structure Lexes (text rest : List Char) (token : Token) : Prop where
  ne_nil : text ≠ []
  skipBlanks_eq : ∀ newline taken, skipBlanks .code newline taken (text ++ rest) = some (newline, taken)
  lex_eq : lex (text ++ rest) = (token, text.length)

theorem Lexes.nextToken_eq {text rest : List Char} {token : Token} (h : Lexes text rest token) :
    nextToken (text ++ rest) = some (token, text ++ rest, rest) := by
  simp only [nextToken, h.skipBlanks_eq, Option.map_some, List.drop_zero, h.lex_eq, List.drop_left]

theorem of_ascii {p : Char → Prop} (h : ∀ n < 128, p (Char.ofNat n)) {c : Char} (hc : c.toNat < 128) : p c := by
  have hp := h c.toNat hc
  rwa [Char.ofNat_toNat] at hp

def startsBlank (c : Char) : Bool := isLineEnd c || isSpace c || c == '/'

theorem skipBlanks_of_start {c : Char} (h : startsBlank c = false) (cs : List Char) (newline : Bool) (taken : Nat) :
    skipBlanks .code newline taken (c :: cs) = some (newline, taken) := by
  simp only [startsBlank, Bool.or_eq_false_iff] at h
  obtain ⟨⟨hline, hspace⟩, hslash⟩ := h
  rw [skipBlanks, hline, hspace, hslash]
  rfl

/-- The text does not go on with a name or number in front of it. -/
def Ends (rest : List Char) : Prop := ∀ c ∈ rest.head?, isNamePart c = false ∧ c ≠ '\\'

section Names

variable {c : Char} {text rest : List Char}

theorem toNat_lt_of_isNameChar (h : Text.isNameChar c = true) : c.toNat < 128 := by
  simp only [Text.isNameChar, Bool.or_eq_true, beq_iff_eq] at h
  rcases h with (h | rfl) | rfl
  · simp only [Char.isAlphanum, Char.isAlpha, Char.isUpper, Char.isLower, Char.isDigit, Bool.or_eq_true,
      Bool.and_eq_true, decide_eq_true_eq, UInt32.le_iff_toNat_le, ge_iff_le] at h
    change ((65 ≤ c.toNat ∧ c.toNat ≤ 90) ∨ (97 ≤ c.toNat ∧ c.toNat ≤ 122)) ∨ (48 ≤ c.toNat ∧ c.toNat ≤ 57) at h
    omega
  · decide
  · decide

theorem isNamePart_of_isNameChar (h : Text.isNameChar c = true) : isNamePart c = true := by
  have hclass := of_ascii (p := fun c => Text.isNameChar c = true → isNamePart c = true) (by decide)
    (toNat_lt_of_isNameChar h)
  exact hclass h

theorem isNameStart_of_isNameChar (h : Text.isNameChar c = true) (hdigit : c.isDigit = false) :
    isNameStart c = true ∧ startsBlank c = false := by
  have hclass := of_ascii
    (p := fun c => Text.isNameChar c = true → c.isDigit = false → isNameStart c = true ∧ startsBlank c = false)
    (by decide) (toNat_lt_of_isNameChar h)
  exact hclass h hdigit

theorem readName_append (h : ∀ c ∈ text, isNamePart c = true) (hrest : Ends rest) :
    readName .plain (text ++ rest) = some (text, text.length) := by
  induction text with
  | nil =>
      cases rest with
      | nil => rfl
      | cons c rest =>
          obtain ⟨hpart, hslash⟩ := hrest c rfl
          rw [List.nil_append, readName, hpart, beq_eq_false_iff_ne.mpr hslash]
          rfl
  | cons c text ih =>
      obtain ⟨hc, htext⟩ := List.forall_mem_cons.mp h
      rw [List.cons_append, readName, hc, ih htext]
      rfl

theorem exists_of_isName {name : String} (h : Text.isName name = true) :
    ∃ c cs, name.toList = c :: cs ∧ c.isDigit = false ∧ ∀ d ∈ c :: cs, Text.isNameChar d = true := by
  rw [Text.isName] at h
  cases hname : name.toList with
  | nil => simp [hname] at h
  | cons c cs =>
      simp only [hname, Bool.and_eq_true, Bool.not_eq_true', List.all_eq_true] at h
      obtain ⟨⟨hdigit, hc⟩, hcs⟩ := h
      exact ⟨c, cs, rfl, hdigit, List.forall_mem_cons.mpr ⟨hc, hcs⟩⟩

theorem isNameText_of_isName {name : String} (h : Text.isName name = true) : isNameText name.toList = true := by
  obtain ⟨c, cs, hname, hdigit, hchars⟩ := exists_of_isName h
  obtain ⟨hstart, -⟩ := isNameStart_of_isNameChar (hchars c (List.mem_cons_self ..)) hdigit
  rw [hname, isNameText, hstart, Bool.true_and, List.all_eq_true]
  exact fun d hd => isNamePart_of_isNameChar (hchars d (List.mem_cons_of_mem c hd))

theorem isNamePart_of_isNameStart (h : isNameStart c = true) : isNamePart c = true := by
  by_cases hlt : c.toNat < 128
  · exact of_ascii (p := fun c => isNameStart c = true → isNamePart c = true) (by decide) hlt h
  · rw [isNameStart, if_neg hlt] at h
    rw [isNamePart, if_neg hlt, h, Bool.or_true, Bool.true_or]

def wideBlanks : List Nat :=
  [0xA0, 0xFEFF, 0x1680, 0x202F, 0x205F, 0x3000, 0x2028, 0x2029] ++ List.range' 0x2000 11

theorem startsBlank_of_isNameStart (h : isNameStart c = true) : startsBlank c = false := by
  by_cases hlt : c.toNat < 128
  · exact of_ascii (p := fun c => isNameStart c = true → startsBlank c = false) (by decide) hlt h
  · rw [isNameStart, if_neg hlt] at h
    have hwide : c.toNat ∉ wideBlanks := by
      intro hmem
      have hnone : ∀ n ∈ wideBlanks, inRanges nameStartRanges n = false := by decide +kernel
      rw [hnone _ hmem] at h
      cases h
    rw [Bool.eq_false_iff]
    intro hblank
    apply hwide
    simp only [startsBlank, isLineEnd, isSpace, Bool.or_eq_true, Bool.and_eq_true, beq_iff_eq, decide_eq_true_eq] at hblank
    simp only [wideBlanks, List.mem_append, List.mem_cons, List.not_mem_nil, or_false, List.mem_range'_1]
    rcases hblank with (hline | hspace) | rfl
    · rcases hline with ((rfl | rfl) | rfl) | rfl <;> simp at hlt ⊢
    · omega
    · exact absurd (by decide) hlt

theorem lexes_nameText {name : String} (h : isNameText name.toList = true) (hrest : Ends rest) :
    Lexes name.toList rest (.name name false) := by
  cases hname : name.toList with
  | nil => rw [hname] at h; cases h
  | cons c cs =>
      rw [hname] at h
      have hclass := h
      rw [isNameText, Bool.and_eq_true, List.all_eq_true] at hclass
      obtain ⟨hstart, hcs⟩ := hclass
      have hparts : ∀ d ∈ c :: cs, isNamePart d = true :=
        List.forall_mem_cons.mpr ⟨isNamePart_of_isNameStart hstart, hcs⟩
      have hread := readName_append hparts hrest
      have hof : String.ofList (c :: cs) = name := by rw [← hname, String.ofList_toList]
      refine ⟨List.cons_ne_nil c cs, skipBlanks_of_start (startsBlank_of_isNameStart hstart) _, ?_⟩
      rw [List.cons_append, lex, hstart, Bool.true_or, if_pos rfl, lexName, ← List.cons_append, hread]
      simp only [h, if_true, hof, bne_self_eq_false]

theorem lexes_name {name : String} (h : Text.isName name = true) (hrest : Ends rest) :
    Lexes name.toList rest (.name name false) := lexes_nameText (isNameText_of_isName h) hrest

end Names

section Numbers

variable {rest : List Char} {n : Nat}

theorem toNat_lt_of_isDigit {c : Char} (h : c.isDigit = true) : c.toNat < 128 := by
  have hbound := (Char.isDigit_iff_toNat.mp h).2
  have hnine : '9'.toNat = 57 := rfl
  omega

theorem digit_class {c : Char} (h : c.isDigit = true) :
    digitIn 10 c = true ∧ c ≠ '_' ∧ startsBlank c = false ∧ isNameStart c = false ∧ c ≠ '\\' ∧ c ≠ '#' := by
  have hclass := of_ascii (p := fun c => c.isDigit = true →
    digitIn 10 c = true ∧ c ≠ '_' ∧ startsBlank c = false ∧ isNameStart c = false ∧ c ≠ '\\' ∧ c ≠ '#')
    (by decide) (toNat_lt_of_isDigit h)
  exact hclass h

theorem hexDigit?_of_isDigit {c : Char} (h : c.isDigit = true) :
    (Text.Quoted.hexDigit? c).getD 0 = c.toNat - '0'.toNat := by
  have hclass := of_ascii (p := fun c => c.isDigit = true → (Text.Quoted.hexDigit? c).getD 0 = c.toNat - '0'.toNat)
    (by decide) (toNat_lt_of_isDigit h)
  exact hclass h

theorem isDigit_of_mem {c : Char} (h : c ∈ Nat.toDigits 10 n) : c.isDigit = true :=
  Nat.isDigit_of_mem_toDigits (by decide) (by decide) h

theorem valueIn_toDigits (n : Nat) : valueIn 10 (Nat.toDigits 10 n) = n := by
  calc valueIn 10 (Nat.toDigits 10 n)
      = (Nat.toDigits 10 n).foldl (fun sofar c => 10 * sofar + (c.toNat - '0'.toNat)) 0 := by
        apply List.foldl_ext
        intro sofar c hc
        rw [hexDigit?_of_isDigit (isDigit_of_mem hc)]
    _ = Nat.ofDigitChars 10 (Nat.toDigits 10 n) 0 := Nat.ofDigitChars_eq_foldl.symm
    _ = n := Nat.ofDigitChars_ten_toDigits

theorem head?_toDigits (hn : 0 < n) : (Nat.toDigits 10 n).head? ≠ some '0' := by
  induction n using Nat.strongRecOn with
  | ind n ih =>
      by_cases hlt : n < 10
      · have hdigit : ∀ m < 10, 0 < m → m.digitChar ≠ '0' := by decide
        rw [Nat.toDigits_of_lt_base hlt, List.head?_cons]
        intro h
        exact hdigit n hlt hn (Option.some.inj h)
      · have hge : 10 ≤ n := Nat.not_lt.mp hlt
        have hpos : 0 < n / 10 := Nat.div_pos hge (by decide)
        rw [Nat.toDigits_of_base_le (by decide) hge, List.head?_append_of_ne_nil _ Nat.toDigits_ne_nil]
        exact ih (n / 10) (Nat.div_lt_self hn (by decide)) hpos

def numberMarks : List Char := ['_', 'n', 'e', 'E', 'x', 'X', 'o', 'O', 'b', 'B']

theorem Ends.head_class (hrest : Ends rest) {c : Char} (hc : c ∈ rest.head?) :
    c.isDigit = false ∧ digitIn 10 c = false ∧ c ∉ numberMarks := by
  have hpart := (hrest c hc).1
  by_cases hlt : c.toNat < 128
  · have hclass := of_ascii
      (p := fun c => isNamePart c = false → c.isDigit = false ∧ digitIn 10 c = false ∧ c ∉ numberMarks)
      (by decide) hlt
    exact hclass hpart
  · have hhex : Text.Quoted.hexDigit? c = none := by
      simp only [Text.Quoted.hexDigit?, Bool.and_eq_true, decide_eq_true_eq]
      rw [if_neg (by omega), if_neg (by omega), if_neg (by omega)]
    have hmarks : ∀ d ∈ numberMarks, d.toNat < 128 := by simp [numberMarks]
    refine ⟨?_, ?_, fun hmem => hlt (hmarks c hmem)⟩
    · exact Bool.eq_false_iff.mpr fun h => hlt (toNat_lt_of_isDigit h)
    · rw [digitIn, hhex]
      rfl

theorem digitRun_append {digits : List Char} (hdigits : ∀ c ∈ digits, c.isDigit = true)
    (hrest : ∀ c ∈ rest.head?, digitIn 10 c = false ∧ c ≠ '_') : digitRun 10 (digits ++ rest) = digits := by
  have hrun : ∀ c ∈ digits, (digitIn 10 c || c == '_') = true := by
    intro c hc
    rw [(digit_class (hdigits c hc)).1, Bool.true_or]
  have hstop : rest.takeWhile (fun c => digitIn 10 c || c == '_') = [] := by
    cases rest with
    | nil => rfl
    | cons c rest =>
        obtain ⟨hdigit, hmark⟩ := hrest c rfl
        apply List.takeWhile_cons_of_neg
        simp [hdigit, hmark]
  rw [digitRun, List.takeWhile_append_of_pos hrun, hstop, List.append_nil]

theorem Ends.stops_digits (hrest : Ends rest) : ∀ c ∈ rest.head?, digitIn 10 c = false ∧ c ≠ '_' := by
  intro c hc
  obtain ⟨_, hdigit, hmark⟩ := hrest.head_class hc
  refine ⟨hdigit, ?_⟩
  rintro rfl
  exact hmark (by decide)

theorem separatorsFit_of_no_separator {cs : List Char} (h : ∀ c ∈ cs, c ≠ '_') : separatorsFit cs = true := by
  have hfit : ∀ cs : List Char, (∀ c ∈ cs, c ≠ '_') → separatorsFit.fit cs = true := by
    intro cs hcs
    induction cs with
    | nil => rfl
    | cons c cs ih =>
        obtain ⟨hc, hcs⟩ := List.forall_mem_cons.mp hcs
        rw [separatorsFit.fit]
        · exact ih hcs
        · rintro rfl _
          exact hc rfl
        · rintro _ rfl _
          exact hc rfl
  cases cs with
  | nil => rfl
  | cons c cs =>
      obtain ⟨hc, hcs⟩ := List.forall_mem_cons.mp h
      rw [separatorsFit]
      · exact hfit cs hcs
      · exact hc

theorem fractionRun_of_head? (h : rest.head? ≠ some '.') : fractionRun rest = ([], 0) := by
  cases rest with
  | nil => rfl
  | cons c rest =>
      rw [fractionRun]
      rintro _ ⟨⟩
      exact h rfl

theorem Ends.exponentRun_eq (hrest : Ends rest) : exponentRun rest = some (0, 0) := by
  cases rest with
  | nil => rfl
  | cons c rest =>
      obtain ⟨_, _, hmark⟩ := hrest.head_class (c := c) rfl
      have hexponent : ¬ (c == 'e' || c == 'E') = true := by
        rw [Bool.or_eq_true, beq_iff_eq, beq_iff_eq]
        rintro (rfl | rfl) <;> exact hmark (by decide)
      rw [exponentRun, if_neg hexponent]

theorem Ends.not_bigint (hrest : Ends rest) : (rest.head? == some 'n') = false := by
  rw [beq_eq_false_iff_ne]
  intro h
  exact (hrest.head_class h).2.2 (by decide)

theorem ofDecimal_zero (hn : n < Number.tenPow 15) : Number.ofDecimal n 0 = Number.ofNat n := by
  rw [Number.ofDecimal]
  by_cases hzero : n = 0
  · rw [if_pos hzero, hzero]
  · have hlength : (Nat.toDigits 10 n).length ≤ 15 := (Nat.length_toDigits_le_iff (by decide) (by decide)).mpr hn
    have hsize : ¬ 400 < Int.ofNat (Nat.toDigits 10 n).length + 0 := by rw [Int.ofNat_eq_natCast]; omega
    have hsmall : ¬ Int.ofNat (Nat.toDigits 10 n).length + 0 < -400 := by rw [Int.ofNat_eq_natCast]; omega
    rw [if_neg hzero]
    simp only [if_neg hsize, if_neg hsmall, Int.le_refl, if_true]
    exact congrArg (Number.ofRatio false · 1) (Nat.mul_one n)

theorem withoutSeparators_digits {digits : List Char} (h : ∀ c ∈ digits, c.isDigit = true) :
    withoutSeparators digits = digits := by
  rw [withoutSeparators, List.filter_eq_self]
  intro c hc
  simpa using (digit_class (h c hc)).2.1

theorem separatorsFit_digits {digits : List Char} (h : ∀ c ∈ digits, c.isDigit = true) : separatorsFit digits = true :=
  separatorsFit_of_no_separator fun c hc => (digit_class (h c hc)).2.1

theorem lexDecimal_whole {digits : List Char} (hdigits : ∀ c ∈ digits, c.isDigit = true) (hrest : Ends rest)
    (hpoint : rest.head? ≠ some '.') :
    lexDecimal (digits ++ rest) = (.number (Number.ofDecimal (valueIn 10 digits) 0), digits.length) := by
  have hnone : separatorsFit [] = true := rfl
  have hvalue : Number.ofDecimal (valueIn 10 (digits ++ [])) (0 - Int.ofNat 0) =
      Number.ofDecimal (valueIn 10 digits) 0 := by
    rw [List.append_nil]
    rfl
  simp only [lexDecimal, digitRun_append hdigits hrest.stops_digits, List.drop_left, hrest.not_bigint, Bool.and_false,
    Bool.false_eq_true, if_false, fractionRun_of_head? hpoint, List.drop_zero, hrest.exponentRun_eq,
    separatorsFit_digits hdigits, withoutSeparators_digits hdigits, hnone, Bool.not_true, Bool.or_false]
  exact Prod.ext (congrArg Token.number hvalue) rfl

theorem lexDecimal_fraction {whole places : List Char} (hwhole : ∀ c ∈ whole, c.isDigit = true)
    (hplaces : ∀ c ∈ places, c.isDigit = true) (hrest : Ends rest) :
    lexDecimal (whole ++ '.' :: (places ++ rest)) =
      (.number (Number.ofDecimal (valueIn 10 (whole ++ places)) (0 - Int.ofNat places.length)),
        (whole ++ '.' :: places).length) := by
  have hpoint : ∀ c ∈ ('.' :: (places ++ rest)).head?, digitIn 10 c = false ∧ c ≠ '_' := by
    rintro c ⟨⟩
    decide
  have hbigint : (('.' :: (places ++ rest)).head? == some 'n') = false := rfl
  have hfraction : fractionRun ('.' :: (places ++ rest)) = (places, 1 + places.length) := by
    rw [fractionRun, digitRun_append hplaces hrest.stops_digits]
  have hbehind : ('.' :: (places ++ rest)).drop (1 + places.length) = rest := by
    rw [Nat.add_comm, List.drop_succ_cons, List.drop_left]
  simp only [lexDecimal, digitRun_append hwhole hpoint, List.drop_left, hbigint, Bool.and_false, Bool.false_eq_true,
    if_false, hfraction, hbehind, hrest.exponentRun_eq, separatorsFit_digits hwhole, separatorsFit_digits hplaces,
    withoutSeparators_digits hwhole, withoutSeparators_digits hplaces, Bool.not_true, Bool.or_false]
  refine Prod.ext rfl ?_
  simp only [List.length_append, List.length_cons]
  omega

theorem lexDecimal_append (hn : n < Number.tenPow 15) (hrest : Ends rest) (hpoint : rest.head? ≠ some '.') :
    lexDecimal (Nat.toDigits 10 n ++ rest) = (.number (Number.ofNat n), (Nat.toDigits 10 n).length) := by
  rw [lexDecimal_whole (fun _ hc => isDigit_of_mem hc) hrest hpoint, valueIn_toDigits, ofDecimal_zero hn]

theorem endsNumber_append (hrest : Ends rest) (token : Token) (text : List Char) :
    endsNumber (text ++ rest) (token, text.length) = (token, text.length) := by
  rw [endsNumber, List.drop_left]
  apply if_neg
  cases rest with
  | nil => exact Bool.false_ne_true
  | cons c rest =>
      obtain ⟨hpart, hslash⟩ := hrest c rfl
      simp [hpart, hslash]

theorem lexNumber_zero (hrest : Ends rest) : lexNumber ('0' :: rest) = endsNumber ('0' :: rest) (lexDecimal ('0' :: rest)) := by
  cases rest with
  | nil => rfl
  | cons c rest =>
      obtain ⟨hdigit, _, hmark⟩ := hrest.head_class (c := c) rfl
      have hnot : ∀ d ∈ numberMarks, (c == d) = false := by
        intro d hd
        rw [beq_eq_false_iff_ne]
        rintro rfl
        exact hmark hd
      simp only [lexNumber, hnot 'x' (by decide), hnot 'X' (by decide), hnot 'o' (by decide), hnot 'O' (by decide),
        hnot 'b' (by decide), hnot 'B' (by decide), hdigit, Bool.or_false, Bool.false_eq_true, if_false]

theorem lexNumber_of_head {c : Char} {cs : List Char} (hc : c ≠ '0') :
    lexNumber (c :: cs) = endsNumber (c :: cs) (lexDecimal (c :: cs)) := by
  rw [lexNumber]
  intro _ _ h
  exact hc (List.cons.inj h).1

theorem lexNumber_append (hn : n < Number.tenPow 15) (hrest : Ends rest) (hpoint : rest.head? ≠ some '.') :
    lexNumber (Nat.toDigits 10 n ++ rest) = (.number (Number.ofNat n), (Nat.toDigits 10 n).length) := by
  have hform : lexNumber (Nat.toDigits 10 n ++ rest) =
      endsNumber (Nat.toDigits 10 n ++ rest) (lexDecimal (Nat.toDigits 10 n ++ rest)) := by
    by_cases hzero : n = 0
    · subst hzero
      exact lexNumber_zero hrest
    · have hhead := head?_toDigits (Nat.pos_of_ne_zero hzero)
      cases hdigits : Nat.toDigits 10 n with
      | nil => exact absurd hdigits Nat.toDigits_ne_nil
      | cons c cs =>
          rw [hdigits] at hhead
          exact lexNumber_of_head fun h => hhead (congrArg some h)
  rw [hform, lexDecimal_append hn hrest hpoint]
  exact endsNumber_append hrest _ _

theorem lexes_of_lexNumber {text : List Char} {token : Token} (hne : text ≠ [])
    (hdigit : ∀ c ∈ text.head?, c.isDigit = true) (h : lexNumber (text ++ rest) = (token, text.length)) :
    Lexes text rest token := by
  cases text with
  | nil => exact absurd rfl hne
  | cons c cs =>
      have hc : c.isDigit = true := hdigit c rfl
      obtain ⟨_, _, hblank, hname, hslash, hhash⟩ := digit_class hc
      refine ⟨hne, skipBlanks_of_start hblank _, ?_⟩
      rw [List.cons_append, lex]
      simp only [hname, beq_eq_false_iff_ne.mpr hslash, beq_eq_false_iff_ne.mpr hhash, hc, Bool.or_false, Bool.true_or,
        Bool.false_eq_true, if_false, if_true]
      exact h

theorem lexes_number (hn : n < Number.tenPow 15) (hrest : Ends rest) (hpoint : rest.head? ≠ some '.') :
    Lexes (Nat.toDigits 10 n) rest (.number (Number.ofNat n)) := by
  refine lexes_of_lexNumber Nat.toDigits_ne_nil (fun c hc => ?_) (lexNumber_append hn hrest hpoint)
  exact isDigit_of_mem (List.mem_of_head? hc)

theorem isNaN_of_isFinite {x : Number} (h : x.isFinite = true) : x.isNaN = false := by
  rw [Number.isFinite, bne_iff_ne] at h
  rw [Number.isNaN, beq_eq_false_iff_ne.mpr h, Bool.false_and]

theorem format_whole {x : Number} (hsign : x.isNegative = false) (hwhole : x.wholePart? = some n)
    (hn : n < Number.tenPow 15) : x.format.toList = Nat.toDigits 10 n := by
  have hfinite : x.isFinite = true := (Number.magnitude_of_wholePart hwhole).1
  simp only [Number.format, isNaN_of_isFinite hfinite, hfinite, hwhole, Bool.false_eq_true, if_false, Bool.not_true]
  cases n with
  | zero => simp
  | succ n =>
      have hplain : x.signText = "" := by rw [Number.signText, hsign]; rfl
      simp only [if_pos hn, hplain, Number.digitsText, String.empty_append, String.toList_ofList]

end Numbers

section Strings

open Text.Quoted

theorem escapeChar_eq_singleton {c : Char} (hslash : c ≠ '\\') (hquote : c ≠ '"') (hfeed : c ≠ '\n') (hreturn : c ≠ '\r')
    (htab : c ≠ '\t') : escapeChar c = [c] := by
  rw [escapeChar] <;> assumption

theorem readUnits_escapeChar (c : Char) (cs : List Char) :
    readUnits '"' .plain (escapeChar c ++ cs) = (readUnits '"' .plain cs).map fun p => (c.toNat :: p.1, p.2) := by
  by_cases hslash : c = '\\'
  · subst hslash
    cases h : readUnits '"' .plain cs <;> simp [escapeChar, readUnits, step, plainStep, escapeStep, octalDigit?, h]
  by_cases hquote : c = '"'
  · subst hquote
    cases h : readUnits '"' .plain cs <;> simp [escapeChar, readUnits, step, plainStep, escapeStep, octalDigit?, h]
  by_cases hfeed : c = '\n'
  · subst hfeed
    cases h : readUnits '"' .plain cs <;> simp [escapeChar, readUnits, step, plainStep, escapeStep, h]
  by_cases hreturn : c = '\r'
  · subst hreturn
    cases h : readUnits '"' .plain cs <;> simp [escapeChar, readUnits, step, plainStep, escapeStep, h]
  by_cases htab : c = '\t'
  · subst htab
    cases h : readUnits '"' .plain cs <;> simp [escapeChar, readUnits, step, plainStep, escapeStep, h]
  have hstep : step '"' .plain c = .more [c.toNat] .plain := by
    rw [step, plainStep, if_neg hquote, if_neg hslash, if_neg hfeed, if_neg hreturn]
  rw [escapeChar_eq_singleton hslash hquote hfeed hreturn htab, List.singleton_append, readUnits, hstep]
  rfl

theorem readUnits_escape (cs rest : List Char) :
    readUnits '"' .plain (cs.flatMap escapeChar ++ '"' :: rest) = some (cs.map Char.toNat, rest) := by
  induction cs with
  | nil => rfl
  | cons c cs ih =>
      rw [List.flatMap_cons, List.append_assoc, readUnits_escapeChar, ih]
      rfl

/-- No character is one half of a pair. -/
theorem joinUnits_toNat (cs : List Char) : joinUnits none (cs.map Char.toNat) = cs := by
  induction cs with
  | nil => rfl
  | cons c cs ih =>
      have hvalid : c.toNat.isValidChar := c.valid
      have hhigh : isHigh c.toNat = false := by
        rw [isHigh, Bool.and_eq_false_iff, decide_eq_false_iff_not, decide_eq_false_iff_not]
        have hranges : c.toNat < 0xd800 ∨ 0xdfff < c.toNat ∧ c.toNat < 0x110000 := hvalid
        omega
      have hchar : charOf c.toNat = c := by rw [charOf, if_pos hvalid, Char.ofNat_toNat]
      rw [List.map_cons, joinUnits, hhigh, hchar, ih]
      rfl

theorem read_escape (cs rest : List Char) :
    Text.Quoted.read '"' (cs.flatMap escapeChar ++ '"' :: rest) = some (cs, rest) := by
  rw [Text.Quoted.read, readUnits_escape, Option.map_some, joinUnits_toNat]

theorem toList_quote (s : String) : (quote s).toList = '"' :: (s.toList.flatMap escapeChar ++ ['"']) := by
  simp only [quote, escape, String.toList_append, String.toList_ofList]
  rfl

theorem lexes_quote (s : String) (rest : List Char) : Lexes (quote s).toList rest (.string s) := by
  rw [toList_quote]
  refine ⟨List.cons_ne_nil _ _, skipBlanks_of_start (by decide) _, ?_⟩
  have hread := read_escape s.toList rest
  have hstring : lexString '"' (s.toList.flatMap escapeChar ++ '"' :: rest) =
      (.string s, 1 + (s.toList.flatMap escapeChar ++ '"' :: rest).length - rest.length) := by
    simp only [lexString, hread, String.ofList_toList]
  have hlength : 1 + (s.toList.flatMap escapeChar ++ '"' :: rest).length - rest.length =
      ('"' :: (s.toList.flatMap escapeChar ++ ['"'])).length := by
    simp only [List.length_append, List.length_cons, List.length_nil]
    omega
  rw [List.cons_append, List.append_assoc, List.singleton_append, ← hlength, ← hstring]
  rfl

end Strings

section Punctuators

def punctuatorTails : List Char := punctuators.flatMap (·.toList.tail)

theorem isPrefixOf_append_cons {p text rest : List Char} {c : Char} (h : ¬ (text ++ [c]) <+: p) :
    p.isPrefixOf (text ++ c :: rest) = p.isPrefixOf text := by
  rw [Bool.eq_iff_iff, List.isPrefixOf_iff_prefix, List.isPrefixOf_iff_prefix]
  constructor
  · intro hp
    rcases List.prefix_or_prefix_of_prefix hp (List.prefix_append text (c :: rest)) with hshort | ⟨more, rfl⟩
    · exact hshort
    · cases more with
      | nil => simp
      | cons d more =>
          obtain ⟨rfl, _⟩ := List.cons_prefix_cons.mp ((List.prefix_append_right_inj text).mp hp)
          exact absurd ⟨more, by simp⟩ h
  · intro hp
    exact hp.trans (List.prefix_append _ _)

theorem not_prefix_of_not_mem_tails {op p : String} {c : Char} (hop : op.toList ≠ []) (hp : p ∈ punctuators)
    (hc : c ∉ punctuatorTails) : ¬ (op.toList ++ [c]) <+: p.toList := by
  rintro ⟨more, hmore⟩
  apply hc
  rw [punctuatorTails, List.mem_flatMap]
  refine ⟨p, hp, ?_⟩
  rw [← hmore, List.tail_append_of_ne_nil (by simp), List.tail_append_of_ne_nil hop]
  simp

/-- Nothing but a punctuator starts with the character, and no fraction or comment. -/
def opensPunct (c : Char) : Bool :=
  !(startsBlank c || isNameStart c || ['\\', '#', '.', '"', '\'', '`'].contains c || c.isDigit)

theorem lex_eq_lexPunct {c : Char} (h : opensPunct c = true) (cs : List Char) : lex (c :: cs) = lexPunct (c :: cs) := by
  simp only [opensPunct, Bool.not_eq_true', Bool.or_eq_false_iff, List.contains_cons, beq_eq_false_iff_ne] at h
  obtain ⟨⟨⟨_, hname⟩, hslash, hhash, hpoint, hquote, happ, htick, _⟩, hdigit⟩ := h
  simp only [lex, hname, hdigit, beq_eq_false_iff_ne.mpr hslash, beq_eq_false_iff_ne.mpr hhash,
    beq_eq_false_iff_ne.mpr hpoint, beq_eq_false_iff_ne.mpr hquote, beq_eq_false_iff_ne.mpr happ,
    beq_eq_false_iff_ne.mpr htick, Bool.or_false, Bool.false_and, Bool.false_eq_true, if_false]

theorem punctuator_class {op : String} (h : op ∈ punctuators) :
    op.toList ≠ [] ∧ punctuators.find? (fun p => p.toList.isPrefixOf op.toList) = some op := by
  revert op
  decide

theorem lexPunct_append {op : String} {c : Char} (hop : op ∈ punctuators) (hchain : op ≠ "?.")
    (hc : c ∉ punctuatorTails) (rest : List Char) : lexPunct (op.toList ++ c :: rest) = (.punct op, op.length) := by
  obtain ⟨hne, hfind⟩ := punctuator_class hop
  have hsame : punctuators.find? (fun p => p.toList.isPrefixOf (op.toList ++ c :: rest)) = some op := by
    rw [← hfind]
    apply List.find?_congr
    intro p hp
    exact isPrefixOf_append_cons (not_prefix_of_not_mem_tails hne hp hc)
  have hplain : (op == "?.") = false := beq_eq_false_iff_ne.mpr hchain
  rw [lexPunct, hsame]
  simp only [hplain, Bool.false_and, Bool.false_eq_true, if_false]

theorem opensPunct_head {op : String} (h : op ∈ punctuators) (hfirst : ∀ d ∈ op.toList.head?, d ≠ '.' ∧ d ≠ '/') :
    ∃ d ds, op.toList = d :: ds ∧ opensPunct d = true := by
  have hall : ∀ op ∈ punctuators, op.toList.head?.all (fun d => d == '.' || d == '/' || opensPunct d) = true := by
    decide
  have hop := hall op h
  cases hlist : op.toList with
  | nil => exact absurd hlist (punctuator_class h).1
  | cons d ds =>
      rw [hlist] at hop hfirst
      obtain ⟨hpoint, hslash⟩ := hfirst d rfl
      refine ⟨d, ds, rfl, ?_⟩
      simpa [hpoint, hslash] using hop

theorem lexes_punct {op : String} {c : Char} (hop : op ∈ punctuators)
    (hfirst : ∀ d ∈ op.toList.head?, d ≠ '.' ∧ d ≠ '/') (hchain : op ≠ "?.") (hc : c ∉ punctuatorTails)
    (rest : List Char) : Lexes op.toList (c :: rest) (.punct op) := by
  have hpunct := lexPunct_append hop hchain hc rest
  obtain ⟨d, ds, hlist, hd⟩ := opensPunct_head hop hfirst
  have hblank : startsBlank d = false := by
    simp only [opensPunct, Bool.not_eq_true', Bool.or_eq_false_iff] at hd
    exact hd.1.1.1
  refine ⟨(punctuator_class hop).1, ?_, ?_⟩
  · rw [hlist]
    exact skipBlanks_of_start hblank _
  · rw [String.length_toList, ← hpunct, hlist]
    exact lex_eq_lexPunct hd _

/-- A division sign with a blank behind it starts no comment. -/
theorem lexes_slash (rest : List Char) : Lexes ['/'] (' ' :: rest) (.punct "/") :=
  ⟨List.cons_ne_nil _ _, fun _ _ => rfl, rfl⟩

theorem not_mem_tails_of_isNameChar {c : Char} (h : Text.isNameChar c = true) : c ∉ punctuatorTails := by
  have hclass := of_ascii (p := fun c => Text.isNameChar c = true → c ∉ punctuatorTails) (by decide)
    (toNat_lt_of_isNameChar h)
  exact hclass h

theorem lexes_point {c : Char} (h : Text.isNameChar c = true) (hdigit : c.isDigit = false) (rest : List Char) :
    Lexes ['.'] (c :: rest) (.punct ".") := by
  have hmem : "." ∈ punctuators := by decide
  have hpunct : lexPunct ('.' :: c :: rest) = (.punct ".", 1) :=
    lexPunct_append hmem (by decide) (not_mem_tails_of_isNameChar h) rest
  refine ⟨List.cons_ne_nil _ _, fun _ _ => rfl, ?_⟩
  have hlex : lex ('.' :: c :: rest) =
      if startsDigit (c :: rest) then lexNumber ('.' :: c :: rest) else lexPunct ('.' :: c :: rest) := rfl
  rw [List.singleton_append, hlex, if_neg (by simp [startsDigit, hdigit]), hpunct]
  rfl

theorem lexes_bracket {op : String} (hop : op ∈ ["(", ")", "[", "]", ","]) (rest : List Char) :
    Lexes op.toList rest (.punct op) := by
  simp only [List.mem_cons, List.not_mem_nil, or_false] at hop
  rcases hop with rfl | rfl | rfl | rfl | rfl <;> exact ⟨List.cons_ne_nil _ _, fun _ _ => rfl, rfl⟩

end Punctuators

end Memoizer.Source
