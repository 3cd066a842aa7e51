import Mathlib
import Memoizer.Tree.Print

namespace Memoizer.Nesting

open Text

/-- A literal remembers the character before, unless that one was escaped. -/
inductive Frame
  | bracket (close : Char)
  | literal (quote : Char) (before : Option Char)
deriving DecidableEq

def opened? : Char → Option Frame
  | '(' => some (.bracket ')')
  | '[' => some (.bracket ']')
  | '{' => some (.bracket '}')
  | '"' => some (.literal '"' none)
  | '\'' => some (.literal '\'' none)
  | '`' => some (.literal '`' none)
  | _ => none

def close? (c : Char) : List Frame → Option (List Frame)
  | .bracket close :: stack => if c = close then some stack else none
  | _ => none

def codeStep (stack : List Frame) (c : Char) : Option (List Frame) :=
  match opened? c with
  | some frame => some (frame :: stack)
  | none => if [')', ']', '}'].contains c then close? c stack else some stack

def literalStep (quote : Char) (before : Option Char) (stack : List Frame) (c : Char) : List Frame :=
  if before = some '\\' then .literal quote none :: stack
  else if c = quote then stack
  else if quote = '`' ∧ before = some '$' ∧ c = '{' then .bracket '}' :: .literal quote none :: stack
  else .literal quote (some c) :: stack

def step : List Frame → Char → Option (List Frame)
  | .literal quote before :: stack, c => some (literalStep quote before stack c)
  | .bracket close :: stack, c => codeStep (.bracket close :: stack) c
  | [], c => codeStep [] c

def isLoose (stack : List Frame) (c : Char) : Bool := stack.isEmpty && c == ','

def split : List Frame → List Char → Option (List (List Char))
  | stack, [] => if stack.isEmpty then some [[]] else none
  | stack, c :: cs =>
    (step stack c).bind fun next => (split next cs).map fun pieces =>
      if isLoose stack c then [] :: pieces else pieces.modifyHead (c :: ·)

/-- The pieces between the commas that stand in no bracket and no literal; none if the brackets do not match. -/
def pieces? (text : String) : Option (List String) := (split [] text.toList).map (List.map String.ofList)

/-- What is open behind a text, and how many commas of it count. -/
def scan : List Frame → List Char → Option (List Frame × Nat)
  | stack, [] => some (stack, 0)
  | stack, c :: cs =>
    (step stack c).bind fun next => (scan next cs).map fun r => (r.1, (if isLoose stack c then 1 else 0) + r.2)

def Scans (stack : List Frame) (cs : List Char) (last : List Frame) (n : Nat) : Prop := scan stack cs = some (last, n)

section Scan

variable {stack next last : List Frame} {c : Char} {cs cs' : List Char} {m n : Nat}

theorem Scans.nil (stack : List Frame) : Scans stack [] stack 0 := rfl

theorem Scans.cons (hstep : step stack c = some next) (h : Scans next cs last n) :
    Scans stack (c :: cs) last ((if isLoose stack c then 1 else 0) + n) := by
  rw [Scans] at h ⊢
  simp [scan, hstep, h]

theorem Scans.exists_of_cons (h : Scans stack (c :: cs) last n) :
    ∃ next m, step stack c = some next ∧ Scans next cs last m ∧ n = (if isLoose stack c then 1 else 0) + m := by
  rw [Scans, scan, Option.bind_eq_some_iff] at h
  obtain ⟨next, hstep, h⟩ := h
  rw [Option.map_eq_some_iff] at h
  obtain ⟨⟨last', m⟩, hscan, heq⟩ := h
  obtain ⟨rfl, rfl⟩ := Prod.mk.inj heq
  exact ⟨next, m, hstep, hscan, rfl⟩

theorem Scans.append (h : Scans stack cs next m) (h' : Scans next cs' last n) : Scans stack (cs ++ cs') last (m + n) := by
  induction cs generalizing stack m with
  | nil =>
      obtain ⟨rfl, rfl⟩ := Prod.mk.inj (Option.some.inj h)
      rwa [Nat.zero_add]
  | cons c cs ih =>
      obtain ⟨mid, k, hstep, hrest, rfl⟩ := h.exists_of_cons
      rw [Nat.add_assoc]
      exact .cons hstep (ih hrest)

theorem Scans.split_eq (h : Scans stack cs [] n) :
    ∃ pieces, split stack cs = some pieces ∧ pieces.length = n + 1 ∧ List.intercalate [','] pieces = cs := by
  induction cs generalizing stack n with
  | nil =>
      obtain ⟨rfl, rfl⟩ := Prod.mk.inj (Option.some.inj h)
      exact ⟨[[]], rfl, rfl, rfl⟩
  | cons c cs ih =>
      obtain ⟨mid, k, hstep, hrest, rfl⟩ := h.exists_of_cons
      obtain ⟨pieces, hsplit, hlength, hjoin⟩ := ih hrest
      cases pieces with
      | nil => cases hlength
      | cons p pieces =>
          by_cases hloose : isLoose stack c = true
          · refine ⟨[] :: p :: pieces, by simp [split, hstep, hsplit, hloose], ?_, ?_⟩
            · rw [if_pos hloose]
              simp only [List.length_cons] at hlength ⊢
              omega
            · have hc : c = ',' := by
                rw [isLoose, Bool.and_eq_true, beq_iff_eq] at hloose
                exact hloose.2
              rw [← hjoin, hc]
              rfl
          · refine ⟨(c :: p) :: pieces, by simp [split, hstep, hsplit, hloose], ?_, ?_⟩
            · rw [if_neg hloose, Nat.zero_add]
              exact hlength
            · rw [← hjoin]
              cases pieces <;> rfl

theorem scans_of_split {pieces : List (List Char)} (h : split stack cs = some pieces) :
    Scans stack cs [] (pieces.length - 1) ∧ pieces ≠ [] := by
  induction cs generalizing stack pieces with
  | nil =>
      cases stack with
      | nil => cases h; exact ⟨rfl, List.cons_ne_nil _ _⟩
      | cons => cases h
  | cons c cs ih =>
      rw [split, Option.bind_eq_some_iff] at h
      obtain ⟨next, hstep, h⟩ := h
      rw [Option.map_eq_some_iff] at h
      obtain ⟨rest, hrest, rfl⟩ := h
      obtain ⟨hscan, hne⟩ := ih hrest
      have hlength : 0 < rest.length := List.length_pos_iff.mpr hne
      have hcons := Scans.cons hstep hscan
      by_cases hloose : isLoose stack c = true
      · rw [if_pos hloose] at hcons
        rw [if_pos hloose, List.length_cons]
        have heq : 1 + (rest.length - 1) = rest.length + 1 - 1 := by omega
        exact ⟨heq ▸ hcons, List.cons_ne_nil _ _⟩
      · rw [if_neg hloose, Nat.zero_add] at hcons
        rw [if_neg hloose, List.length_modifyHead]
        refine ⟨hcons, fun hnil => ?_⟩
        rw [List.modifyHead_eq_nil_iff] at hnil
        exact hne hnil

end Scan

def inCode : List Frame → Bool
  | .literal .. :: _ => false
  | _ => true

section Frames

variable {stack next last base : List Frame} {c : Char} {cs : List Char} {n : Nat}

theorem step_of_inCode (h : inCode stack = true) (c : Char) : step stack c = codeStep stack c := by
  cases stack with
  | nil => rfl
  | cons frame stack =>
      cases frame with
      | bracket => rfl
      | literal => cases h

theorem close?_append (h : close? c stack = some next) : close? c (stack ++ base) = some (next ++ base) := by
  cases stack with
  | nil => cases h
  | cons frame stack =>
      cases frame with
      | literal => cases h
      | bracket close =>
          by_cases hc : c = close
          · rw [close?, if_pos hc] at h
            cases h
            rw [List.cons_append, close?, if_pos hc]
          · rw [close?, if_neg hc] at h
            cases h

theorem codeStep_append (h : codeStep stack c = some next) : codeStep (stack ++ base) c = some (next ++ base) := by
  unfold codeStep at h ⊢
  split at h
  · cases h; rfl
  · by_cases hclose : [')', ']', '}'].contains c = true
    · rw [if_pos hclose] at h ⊢
      exact close?_append h
    · rw [if_neg hclose] at h ⊢
      cases h; rfl

theorem literalStep_append (quote : Char) (before : Option Char) (stack base : List Frame) (c : Char) :
    literalStep quote before (stack ++ base) c = literalStep quote before stack c ++ base := by
  unfold literalStep
  split_ifs <;> rfl

theorem step_append (hbase : inCode base = true) (h : step stack c = some next) :
    step (stack ++ base) c = some (next ++ base) := by
  cases stack with
  | nil =>
      rw [List.nil_append, step_of_inCode hbase]
      have hcode : codeStep [] c = some next := h
      exact codeStep_append hcode
  | cons frame stack =>
      cases frame with
      | bracket close =>
          have hcode : codeStep (.bracket close :: stack) c = some next := h
          exact codeStep_append hcode
      | literal quote before =>
          cases h
          rw [List.cons_append, step, literalStep_append]

/-- Behind an open bracket the scan goes as it does alone, and no comma counts. -/
theorem Scans.framed (hbase : inCode base = true) (hne : base ≠ []) (h : Scans stack cs last n) :
    Scans (stack ++ base) cs (last ++ base) 0 := by
  induction cs generalizing stack n with
  | nil =>
      obtain ⟨rfl, rfl⟩ := Prod.mk.inj (Option.some.inj h)
      exact .nil _
  | cons c cs ih =>
      obtain ⟨mid, k, hstep, hrest, rfl⟩ := h.exists_of_cons
      have hquiet : isLoose (stack ++ base) c = false := by simp [isLoose, hne]
      have hcons := Scans.cons (step_append hbase hstep) (ih hrest)
      rwa [hquiet] at hcons

end Frames

/-- The text leaves nothing open, and `n` of its commas count. -/
def Commas (text : String) (n : Nat) : Prop := Scans [] text.toList [] n

theorem join_ofList (texts : List (List Char)) :
    join "," (texts.map String.ofList) = String.ofList (List.intercalate [','] texts) := by
  induction texts with
  | nil => rfl
  | cons s texts ih =>
      cases texts with
      | nil => simp [join, List.intercalate]
      | cons t texts =>
          have hinter : List.intercalate [','] (s :: t :: texts) = s ++ ',' :: List.intercalate [','] (t :: texts) := rfl
          rw [List.map_cons, List.map_cons, join, ← List.map_cons, ih, hinter]
          apply String.toList_inj.mp
          simp

theorem commas_of_pieces {s : String} {pieces : List String} (h : pieces? s = some pieces) :
    Commas s (pieces.length - 1) := by
  rw [pieces?, Option.map_eq_some_iff] at h
  obtain ⟨parts, hsplit, rfl⟩ := h
  rw [List.length_map]
  exact (scans_of_split hsplit).1

namespace Commas

variable {s t : String} {m n : Nat}

theorem pieces_eq (h : Commas s n) :
    ∃ pieces, pieces? s = some pieces ∧ pieces.length = n + 1 ∧ join "," pieces = s := by
  obtain ⟨pieces, hsplit, hlength, hjoin⟩ := h.split_eq
  refine ⟨pieces.map String.ofList, by rw [pieces?, hsplit]; rfl, by rw [List.length_map, hlength], ?_⟩
  rw [join_ofList, hjoin, String.ofList_toList]

theorem one_piece_iff (h : Commas s n) : pieces? s = some [s] ↔ n = 0 := by
  obtain ⟨pieces, hpieces, hlength, hjoin⟩ := h.pieces_eq
  constructor
  · intro hone
    cases hpieces.symm.trans hone
    simpa using hlength
  · rintro rfl
    obtain ⟨p, rfl⟩ := List.length_eq_one_iff.mp hlength
    rw [hpieces, ← hjoin]
    rfl

theorem append (h : Commas s m) (h' : Commas t n) : Commas (s ++ t) (m + n) := by
  rw [Commas, String.toList_append]
  exact Scans.append h h'

theorem inside (h : Commas s n) {base : List Frame} (hbase : inCode base = true) (hne : base ≠ []) :
    Scans base s.toList base 0 := Scans.framed hbase hne h

theorem up_to_close (h : Commas s n) {c : Char} (hc : c ∈ [')', ']', '}']) (stack : List Frame) :
    Scans (.bracket c :: stack) (s.toList ++ [c]) stack 0 := by
  have hstep : step (.bracket c :: stack) c = some stack := by
    simp only [List.mem_cons, List.not_mem_nil, or_false] at hc
    rcases hc with rfl | rfl | rfl <;> rfl
  exact (h.inside rfl (List.cons_ne_nil _ _)).append (.cons hstep (.nil stack))

theorem wrap (h : Commas s n) {o c : Char} (hopen : opened? o = some (.bracket c)) (ht : t.toList = o :: (s.toList ++ [c])) :
    Commas t 0 := by
  have hstep : step [] o = some [.bracket c] := by simp only [step, codeStep, hopen]
  have hclass : isLoose [] o = false ∧ c ∈ [')', ']', '}'] := by
    unfold opened? at hopen
    split at hopen <;> cases hopen <;> decide
  have hscan := Scans.cons hstep (h.up_to_close hclass.2 [])
  rw [hclass.1, ← ht] at hscan
  exact hscan

theorem parens (h : Commas s n) : Commas (Text.parens s) 0 := h.wrap (o := '(') rfl (by simp [Text.parens])

theorem brackets (h : Commas s n) : Commas (Text.brackets s) 0 := h.wrap (o := '[') rfl (by simp [Text.brackets])

theorem parensIf (h : Commas s n) (wrap : Bool) : Commas (Text.parensIf wrap s) (if wrap then 0 else n) := by
  cases wrap with
  | true => exact h.parens
  | false => exact h

end Commas

def Balanced (s : String) : Prop := ∃ n, Commas s n

theorem Commas.balanced {s : String} {n : Nat} (h : Commas s n) : Balanced s := ⟨n, h⟩

theorem balanced_empty : Balanced "" := ⟨0, .nil []⟩

theorem Balanced.append {s t : String} (hs : Balanced s) (ht : Balanced t) : Balanced (s ++ t) := by
  obtain ⟨m, hs⟩ := hs
  obtain ⟨n, ht⟩ := ht
  exact (hs.append ht).balanced

def isPlainChar (c : Char) : Bool := (opened? c).isNone && !([')', ']', '}', ','].contains c)

/-- The text has nothing in it that opens, closes or separates. -/
def isPlain (s : String) : Bool := s.toList.all isPlainChar

theorem isPlain_append {s t : String} (hs : isPlain s = true) (ht : isPlain t = true := by decide) : isPlain (s ++ t) = true := by
  rw [isPlain, String.toList_append, List.all_append, Bool.and_eq_true]
  exact ⟨hs, ht⟩

theorem step_of_isPlainChar {stack : List Frame} {c : Char} (hstack : inCode stack = true) (h : isPlainChar c = true) :
    step stack c = some stack ∧ isLoose stack c = false := by
  simp only [isPlainChar, Bool.and_eq_true, Option.isNone_iff_eq_none, Bool.not_eq_true', List.contains_eq_mem,
    List.mem_cons, List.not_mem_nil, or_false, decide_eq_false_iff_not, not_or] at h
  obtain ⟨hopen, hparen, hbracket, hbrace, hcomma⟩ := h
  constructor
  · rw [step_of_inCode hstack, codeStep, hopen]
    simp [hparen, hbracket, hbrace]
  · simp [isLoose, hcomma]

theorem scans_plain {stack : List Frame} (hstack : inCode stack = true) {cs : List Char}
    (h : ∀ c ∈ cs, isPlainChar c = true) : Scans stack cs stack 0 := by
  induction cs with
  | nil => exact .nil stack
  | cons c cs ih =>
      obtain ⟨hc, hcs⟩ := List.forall_mem_cons.mp h
      obtain ⟨hstep, hloose⟩ := step_of_isPlainChar hstack hc
      have hscan := Scans.cons hstep (ih hcs)
      rwa [hloose] at hscan

theorem commas_of_isPlain {s : String} (h : isPlain s = true) : Commas s 0 := by
  rw [isPlain, List.all_eq_true] at h
  exact scans_plain rfl h

theorem Commas.plain {s t : String} {n : Nat} (h : Commas s n) (ht : isPlain t = true := by decide) : Commas (s ++ t) n :=
  h.append (commas_of_isPlain ht)

theorem Commas.after {s t : String} {n : Nat} (h : Commas t n) (hs : isPlain s = true := by decide) : Commas (s ++ t) n := by
  have happend := (commas_of_isPlain hs).append h
  rwa [Nat.zero_add] at happend

theorem Balanced.plain {s t : String} (h : Balanced s) (ht : isPlain t = true := by decide) : Balanced (s ++ t) := by
  obtain ⟨n, h⟩ := h
  exact (h.plain ht).balanced

theorem Balanced.after {s t : String} (h : Balanced t) (hs : isPlain s = true := by decide) : Balanced (s ++ t) := by
  obtain ⟨n, h⟩ := h
  exact (h.after hs).balanced

theorem commas_join {texts : List String} {counts : List Nat} (h : List.Forall₂ Commas texts counts) (hne : texts ≠ []) :
    Commas (join ", " texts) (counts.sum + (texts.length - 1)) := by
  induction h with
  | nil => exact absurd rfl hne
  | @cons s n texts counts hs hrest ih =>
      cases hrest with
      | nil => simpa [join] using hs
      | @cons t m texts counts ht hrest =>
          have hsep : Commas ", " 1 := rfl
          have hjoin := (hs.append hsep).append (ih (List.cons_ne_nil _ _))
          have hcount : n + 1 + ((m :: counts).sum + ((t :: texts).length - 1)) =
              (n :: m :: counts).sum + ((s :: t :: texts).length - 1) := by
            simp only [List.sum_cons, List.length_cons]
            omega
          rw [hcount] at hjoin
          exact hjoin

theorem balanced_join {texts : List String} (h : ∀ s ∈ texts, Balanced s) : Balanced (join ", " texts) := by
  cases texts with
  | nil => exact balanced_empty
  | cons s texts =>
      have hcounts : ∃ counts, List.Forall₂ Commas (s :: texts) counts := by
        choose! count hcount using h
        exact ⟨(s :: texts).map count, List.forall₂_map_right_iff.mpr (List.forall₂_same.mpr hcount)⟩
      obtain ⟨counts, hcounts⟩ := hcounts
      exact ⟨_, commas_join hcounts (List.cons_ne_nil _ _)⟩

theorem commas_braces {texts : List String} (h : ∀ s ∈ texts, Balanced s) : Commas (braces texts) 0 := by
  cases texts with
  | nil => rfl
  | cons s texts =>
      obtain ⟨n, hjoin⟩ := balanced_join h
      have hinner : Commas (" " ++ join ", " (s :: texts) ++ " ") n := hjoin.after.plain
      exact hinner.wrap (o := '{') rfl (by simp [braces])

section Literals

theorem escapeChar_cases (c : Char) :
    (∃ d, Quoted.escapeChar c = ['\\', d]) ∨ Quoted.escapeChar c = [c] ∧ c ≠ '\\' ∧ c ≠ '"' := by
  unfold Quoted.escapeChar
  split
  · exact .inl ⟨_, rfl⟩
  · exact .inl ⟨_, rfl⟩
  · exact .inl ⟨_, rfl⟩
  · exact .inl ⟨_, rfl⟩
  · exact .inl ⟨_, rfl⟩
  · exact .inr ⟨rfl, by assumption, by assumption⟩

theorem scans_escape (cs : List Char) {before : Option Char} (h : before ≠ some '\\') :
    ∃ last ≠ some '\\', Scans [.literal '"' before] (cs.flatMap Quoted.escapeChar) [.literal '"' last] 0 := by
  induction cs generalizing before with
  | nil => exact ⟨before, h, .nil _⟩
  | cons c cs ih =>
      rcases escapeChar_cases c with ⟨d, hescape⟩ | ⟨hplain, hback, hquote⟩
      · obtain ⟨last, hlast, hrest⟩ := ih (show (none : Option Char) ≠ some '\\' by simp)
        have hopen : step [.literal '"' before] '\\' = some [.literal '"' (some '\\')] := by
          simp [step, literalStep, h]
        have hshut : step [.literal '"' (some '\\')] d = some [.literal '"' none] := rfl
        refine ⟨last, hlast, ?_⟩
        rw [List.flatMap_cons, hescape]
        exact .cons hopen (.cons hshut hrest)
      · obtain ⟨last, hlast, hrest⟩ := ih (show some c ≠ some '\\' by simpa using hback)
        have hstep : step [.literal '"' before] c = some [.literal '"' (some c)] := by
          simp [step, literalStep, h, hquote]
        refine ⟨last, hlast, ?_⟩
        rw [List.flatMap_cons, hplain]
        exact .cons hstep hrest

theorem commas_quote (s : String) : Commas (Quoted.quote s) 0 := by
  obtain ⟨last, hlast, hscan⟩ := scans_escape s.toList (show (none : Option Char) ≠ some '\\' by simp)
  have hopen : step [] '"' = some [.literal '"' none] := rfl
  have hshut : step [.literal '"' last] '"' = some [] := by simp [step, literalStep, hlast]
  have htext : (Quoted.quote s).toList = '"' :: (s.toList.flatMap Quoted.escapeChar ++ ['"']) := by
    simp [Quoted.quote, Quoted.escape]
  rw [Commas, htext]
  exact .cons hopen (hscan.append (.cons hshut (.nil [])))

def isQuasi (s : String) : Bool :=
  match scan [.literal '`' none] s.toList with
  | some ([.literal '`' before], 0) => before != some '\\'
  | _ => false

theorem scans_of_isQuasi {s : String} (h : isQuasi s = true) :
    ∃ last ≠ some '\\', Scans [.literal '`' none] s.toList [.literal '`' last] 0 := by
  unfold isQuasi at h
  split at h
  · exact ⟨_, by simpa using h, by assumption⟩
  · cases h

theorem scans_interpolation {s : String} {n : Nat} (h : Commas s n) {before : Option Char} (hb : before ≠ some '\\') :
    Scans [.literal '`' before] (interpolation s).toList [.literal '`' none] 0 := by
  have hdollar : step [.literal '`' before] '$' = some [.literal '`' (some '$')] := by simp [step, literalStep, hb]
  have hopen : step [.literal '`' (some '$')] '{' = some [.bracket '}', .literal '`' none] := by
    simp [step, literalStep]
  have htext : (interpolation s).toList = '$' :: '{' :: (s.toList ++ ['}']) := by simp [interpolation]
  rw [htext]
  exact .cons hdollar (.cons hopen (h.up_to_close (by decide) _))

theorem scans_weave {quasis texts : List String} (hlength : quasis.length = texts.length + 1)
    (hquasis : ∀ q ∈ quasis, isQuasi q = true) (htexts : ∀ s ∈ texts, Balanced s) :
    ∃ last ≠ some '\\', Scans [.literal '`' none] (weave quasis texts).toList [.literal '`' last] 0 := by
  induction texts generalizing quasis with
  | nil =>
      obtain ⟨q, rfl⟩ := List.length_eq_one_iff.mp hlength
      have htext : (weave [q] []).toList = q.toList := by simp [weave]
      rw [htext]
      exact scans_of_isQuasi (hquasis q (List.mem_singleton_self q))
  | cons s texts ih =>
      cases quasis with
      | nil => cases hlength
      | cons q quasis =>
          obtain ⟨hq, hquasis⟩ := List.forall_mem_cons.mp hquasis
          obtain ⟨⟨n, hs⟩, htexts⟩ := List.forall_mem_cons.mp htexts
          obtain ⟨before, hbefore, hfirst⟩ := scans_of_isQuasi hq
          obtain ⟨last, hlast, hrest⟩ := ih (Nat.succ.inj hlength) hquasis htexts
          refine ⟨last, hlast, ?_⟩
          rw [weave, String.toList_append, String.toList_append]
          exact (hfirst.append (scans_interpolation hs hbefore)).append hrest

theorem commas_template {quasis texts : List String} (hlength : quasis.length = texts.length + 1)
    (hquasis : ∀ q ∈ quasis, isQuasi q = true) (htexts : ∀ s ∈ texts, Balanced s) :
    Commas ("`" ++ weave quasis texts ++ "`") 0 := by
  obtain ⟨last, hlast, hscan⟩ := scans_weave hlength hquasis htexts
  have hopen : step [] '`' = some [.literal '`' none] := rfl
  have hshut : step [.literal '`' last] '`' = some [] := by simp [step, literalStep, hlast]
  have htext : ("`" ++ weave quasis texts ++ "`").toList = '`' :: ((weave quasis texts).toList ++ ['`']) := by simp
  rw [Commas, htext]
  exact .cons hopen (hscan.append (.cons hshut (.nil [])))

end Literals

section Names

theorem isPlainChar_of_isNameChar {c : Char} (h : isNameChar c = true) : isPlainChar c = true := by
  have hne : ∀ d, isNameChar d = false → c ≠ d := by
    rintro d hd rfl
    rw [h] at hd
    cases hd
  have hopen : opened? c = none := by
    unfold opened?
    split
    case h_7 => rfl
    all_goals exact absurd rfl (hne _ (by decide))
  simp [isPlainChar, hopen, hne ')' (by decide), hne ']' (by decide), hne '}' (by decide), hne ',' (by decide)]

theorem isPlain_of_isName {s : String} (h : isName s = true) : isPlain s = true := by
  unfold isName at h
  split at h
  · cases h
  · rename_i c rest htext
    simp only [Bool.and_eq_true, List.all_eq_true] at h
    rw [isPlain, htext, List.all_eq_true]
    exact List.forall_mem_cons.mpr
      ⟨isPlainChar_of_isNameChar h.1.2, fun d hd => isPlainChar_of_isNameChar (h.2 d hd)⟩

theorem isPlainChar_of_mem_digitsText {n : Nat} {c : Char} (h : c ∈ Number.digitsText n) : isPlainChar c = true :=
  isPlainChar_of_isNameChar (by simp [isNameChar, Char.isAlphanum, Nat.isDigit_of_mem_toDigits (by decide) (by decide) h])

theorem isPlain_positional (d : Number.Decimal) : isPlain d.positional = true := by
  have hdigits : ∀ c ∈ ((Number.digitsText d.digits).reverse.dropWhile (· == '0')).reverse, isPlainChar c = true := by
    intro c hc
    rw [List.mem_reverse] at hc
    exact isPlainChar_of_mem_digitsText (List.mem_reverse.mp ((List.dropWhile_sublist _).subset hc))
  have hzeros (n : Nat) : (Number.zeros n).all isPlainChar = true := by
    rw [List.all_eq_true]
    intro c hc
    rw [(List.mem_replicate.mp hc).2]
    decide
  rw [isPlain, Number.Decimal.positional]
  split_ifs
  · simp only [String.toList_ofList, List.all_append, Bool.and_eq_true]
    exact ⟨⟨by decide, hzeros _⟩, List.all_eq_true.mpr hdigits⟩
  · simp only [String.toList_ofList, List.all_append, Bool.and_eq_true]
    exact ⟨List.all_eq_true.mpr hdigits, hzeros _⟩
  · simp only [String.toList_ofList, List.all_append, Bool.and_eq_true]
    refine ⟨⟨?_, by decide⟩, ?_⟩
    · exact List.all_eq_true.mpr fun c hc => hdigits c (List.mem_of_mem_take hc)
    · exact List.all_eq_true.mpr fun c hc => hdigits c (List.mem_of_mem_drop hc)

theorem isPlain_format (x : Number) : isPlain x.format = true := by
  have hsign : isPlain x.signText = true := by
    unfold Number.signText
    split <;> decide
  have hdigits (n : Nat) : isPlain (String.ofList (Number.digitsText n)) = true := by
    rw [isPlain, String.toList_ofList, List.all_eq_true]
    exact fun c => isPlainChar_of_mem_digitsText
  unfold Number.format
  split_ifs
  · decide
  · exact isPlain_append hsign
  · split
    · decide
    · split_ifs
      · exact isPlain_append hsign (hdigits _)
      · exact isPlain_append hsign (isPlain_positional _)
    · exact isPlain_append hsign (isPlain_positional _)

end Names

end Memoizer.Nesting
