import Mathlib
import Memoizer.Source.Lines

namespace Memoizer

section Bytes

theorem byteLength_toList (s : String) : byteLength s.toList = s.utf8ByteSize := by
  have hlen : ∀ cs : List Char, byteLength cs = String.utf8Len cs := by
    intro cs
    induction cs with
    | nil => rfl
    | cons c cs ih => rw [byteLength, ih, String.utf8Len_cons, Nat.add_comm]
  rw [hlen, ← String.utf8ByteSize_ofList, String.ofList_toList]

theorem byteLength_cons_ne_zero (c : Char) (cs : List Char) : byteLength (c :: cs) ≠ 0 := by
  have hpos := c.utf8Size_pos
  rw [byteLength]
  omega

theorem dropBytes_append (front rest : List Char) : dropBytes (byteLength front) (front ++ rest) = rest := by
  induction front with
  | nil => cases rest <;> rfl
  | cons c front ih =>
      rw [List.cons_append, dropBytes, if_neg (byteLength_cons_ne_zero c front), byteLength, Nat.add_sub_cancel_left, ih]

theorem takeBytes_append (front rest : List Char) : takeBytes (byteLength front) (front ++ rest) = front := by
  induction front with
  | nil => cases rest <;> rfl
  | cons c front ih =>
      rw [List.cons_append, takeBytes, if_neg (byteLength_cons_ne_zero c front), byteLength, Nat.add_sub_cancel_left, ih]

end Bytes

section LineStarts

theorem lineStartsFrom_append (offset : Nat) (front rest : List Char) :
    lineStartsFrom offset (front ++ rest) =
      lineStartsFrom offset front ++ lineStartsFrom (offset + byteLength front) rest := by
  induction front generalizing offset with
  | nil => rfl
  | cons c front ih =>
      simp only [List.cons_append, lineStartsFrom, ih, byteLength, Nat.add_assoc]
      split <;> rfl

theorem mem_lineStartsFrom {offset start : Nat} {cs : List Char} (h : start ∈ lineStartsFrom offset cs) :
    offset < start ∧ start ≤ offset + byteLength cs := by
  induction cs generalizing offset with
  | nil => cases h
  | cons c cs ih =>
      have hpos := c.utf8Size_pos
      rw [byteLength]
      rw [lineStartsFrom] at h
      split at h
      · rcases List.mem_cons.mp h with rfl | hmem
        · omega
        · have hbounds := ih hmem
          omega
      · have hbounds := ih h
        omega

theorem pairwise_lineStartsFrom (offset : Nat) (cs : List Char) : (lineStartsFrom offset cs).Pairwise (· < ·) := by
  induction cs generalizing offset with
  | nil => exact .nil
  | cons c cs ih =>
      rw [lineStartsFrom]
      split
      · exact .cons (fun start hstart => (mem_lineStartsFrom hstart).1) (ih _)
      · exact ih _

theorem length_lineStartsFrom (offset : Nat) (cs : List Char) : (lineStartsFrom offset cs).length = cs.count '\n' := by
  induction cs generalizing offset with
  | nil => rfl
  | cons c cs ih =>
      rw [lineStartsFrom, List.count_cons]
      split
      next hc => simp [hc, ih]
      next hc => simp [hc, ih]

def lineStartsOf (front : List Char) : List Nat := 0 :: lineStartsFrom 0 front

theorem length_lineStartsOf (front : List Char) : (lineStartsOf front).length = 1 + front.count '\n' := by
  rw [lineStartsOf, List.length_cons, length_lineStartsFrom, Nat.add_comm]

theorem le_of_mem_lineStartsOf {start : Nat} {front : List Char} (h : start ∈ lineStartsOf front) :
    start ≤ byteLength front := by
  rcases List.mem_cons.mp h with rfl | hmem
  · exact Nat.zero_le _
  · simpa using (mem_lineStartsFrom hmem).2

theorem getLast?_lineStartsOf (front : List Char) :
    ∃ lines, front = lines ++ front.rtakeWhile (· != '\n') ∧ (lineStartsOf front).getLast? = some (byteLength lines) := by
  induction front using List.reverseRecOn with
  | nil => exact ⟨[], rfl, rfl⟩
  | append_singleton front c ih =>
      obtain ⟨lines, hlines, hlast⟩ := ih
      by_cases hc : c = '\n'
      · refine ⟨front ++ [c], ?_, ?_⟩
        · rw [List.rtakeWhile_concat_neg _ _ _ (by simp [hc]), List.append_nil]
        · have hsize : ('\n').utf8Size = 1 := by decide
          simp [lineStartsOf, lineStartsFrom_append, lineStartsFrom, hc, byteLength, hsize, List.getLast?_cons]
      · refine ⟨lines, ?_, ?_⟩
        · rw [List.rtakeWhile_concat_pos _ _ _ (by simp [hc]), ← List.append_assoc, ← hlines]
        · rw [lineStartsOf, lineStartsFrom_append, lineStartsFrom, if_neg hc, lineStartsFrom, List.append_nil]
          exact hlast

end LineStarts

namespace SourceText

theorem lineStarts_ofString (file : String) (front rest : String) : (ofString file (front ++ rest)).lineStarts =
    lineStartsOf front.toList ++ lineStartsFrom (byteLength front.toList) rest.toList := by
  rw [ofString, String.toList_append, lineStartsFrom_append, Nat.zero_add]
  rfl

theorem pairwise_lineStarts (file source : String) : (ofString file source).lineStarts.Pairwise (· < ·) :=
  .cons (fun _ hstart => (mem_lineStartsFrom hstart).1) (pairwise_lineStartsFrom 0 source.toList)

/-- The line starts that are not behind the end of `front` are those of the lines it has begun. -/
theorem takeWhile_lineStarts (file front rest : String) :
    (ofString file (front ++ rest)).lineStarts.takeWhile (· ≤ byteLength front.toList) = lineStartsOf front.toList := by
  have hfront : ∀ start ∈ lineStartsOf front.toList, decide (start ≤ byteLength front.toList) = true := by
    intro start hstart
    exact decide_eq_true (le_of_mem_lineStartsOf hstart)
  have hrest : (lineStartsFrom (byteLength front.toList) rest.toList).takeWhile (· ≤ byteLength front.toList) = [] := by
    rw [List.takeWhile_eq_nil_iff]
    intro hpos
    have hlt := (mem_lineStartsFrom (List.getElem_mem hpos)).1
    simpa using hlt
  rw [lineStarts_ofString, List.takeWhile_append_of_pos hfront, hrest, List.append_nil]

theorem lineStarts_getElem? (file front rest : String) :
    (ofString file (front ++ rest)).lineStarts[front.toList.count '\n']? = (lineStartsOf front.toList).getLast? := by
  have hlt : front.toList.count '\n' < (lineStartsOf front.toList).length := by
    rw [length_lineStartsOf]
    omega
  rw [lineStarts_ofString, List.getElem?_append_left hlt, List.getLast?_eq_getElem?, length_lineStartsOf,
    Nat.add_sub_cancel_left]

theorem placeAt_append (file front rest : String) :
    (ofString file (front ++ rest)).placeAt (byteLength front.toList) =
      Place.ofCounts file (1 + front.toList.count '\n') (front.toList.rtakeWhile (· != '\n')).length := by
  obtain ⟨lines, hlines, hlast⟩ := getLast?_lineStartsOf front.toList
  have hstart : (ofString file (front ++ rest)).lineStarts.getD (front.toList.count '\n') 0 = byteLength lines := by
    rw [List.getD_eq_getElem?_getD, lineStarts_getElem?, hlast, Option.getD_some]
  have htext : (ofString file (front ++ rest)).text =
      lines ++ (front.toList.rtakeWhile (· != '\n') ++ rest.toList) := by
    rw [← List.append_assoc, ← hlines, ← String.toList_append]
    rfl
  have hbytes : byteLength front.toList - byteLength lines = byteLength (front.toList.rtakeWhile (· != '\n')) := by
    have hsum := congrArg byteLength hlines
    rw [byteLength_append] at hsum
    omega
  simp only [placeAt, takeWhile_lineStarts, length_lineStartsOf, Nat.add_sub_cancel_left, hstart, htext, hbytes,
    dropBytes_append, takeBytes_append]
  rfl

end SourceText

namespace Strict

/-- Halves the stretch from `lo` to `hi` until it is empty, for the number of starts that are not behind the offset. -/
def search (starts : List Nat) (offset : Nat) : Nat → Nat → Nat → Option Nat
  | 0, lo, hi => if lo < hi then none else some lo
  | steps + 1, lo, hi =>
    if lo < hi then do
      let start ← starts[(lo + hi) / 2]?
      if start ≤ offset then search starts offset steps ((lo + hi) / 2 + 1) hi
      else search starts offset steps lo ((lo + hi) / 2)
    else some lo

theorem getElem_le_iff {starts : List Nat} (h : starts.Pairwise (· < ·)) (offset : Nat) {i : Nat} (hi : i < starts.length) :
    starts[i] ≤ offset ↔ i < (starts.takeWhile (· ≤ offset)).length := by
  induction starts generalizing i with
  | nil => cases hi
  | cons start starts ih =>
      obtain ⟨hfirst, hrest⟩ := List.pairwise_cons.mp h
      by_cases hle : start ≤ offset
      · rw [List.takeWhile_cons_of_pos (by simpa using hle), List.length_cons]
        cases i with
        | zero => simpa using hle
        | succ i => simpa using ih hrest (Nat.lt_of_succ_lt_succ hi)
      · have hbehind : offset < (start :: starts)[i] := by
          cases i with
          | zero => exact Nat.not_le.mp hle
          | succ i => exact (Nat.not_le.mp hle).trans (hfirst _ (List.getElem_mem (Nat.lt_of_succ_lt_succ hi)))
        rw [List.takeWhile_cons_of_neg (by simpa using hle), List.length_nil]
        omega

theorem search_eq {starts : List Nat} {offset line : Nat}
    (hline : ∀ i (hi : i < starts.length), starts[i] ≤ offset ↔ i < line) {steps lo hi : Nat} (hlo : lo ≤ line)
    (hhi : line ≤ hi) (hlen : hi ≤ starts.length) (hsteps : hi - lo ≤ steps) :
    search starts offset steps lo hi = some line := by
  induction steps generalizing lo hi with
  | zero =>
      have heq : lo = line := by omega
      rw [search, if_neg (by omega), heq]
  | succ steps ih =>
      rw [search]
      split
      next hlt =>
        have hmid : (lo + hi) / 2 < starts.length := by omega
        rw [List.getElem?_eq_getElem hmid]
        simp only [Option.bind_eq_bind, Option.bind_some, hline _ hmid]
        split
        next hbefore => exact ih (by omega) hhi hlen (by omega)
        next hbehind => exact ih hlo (by omega) (by omega) (by omega)
      next hge =>
        have heq : lo = line := by omega
        rw [heq]

def splitBytes? : Nat → List Char → Option (List Char × List Char)
  | 0, cs => some ([], cs)
  | _ + 1, [] => none
  | n + 1, c :: cs =>
    if c.utf8Size ≤ n + 1 then (splitBytes? (n + 1 - c.utf8Size) cs).map fun p => (c :: p.1, p.2) else none

def slice? (start stop : Nat) (cs : List Char) : Option (List Char) :=
  if start ≤ stop then do
    let (_, behind) ← splitBytes? start cs
    let (between, _) ← splitBytes? (stop - start) behind
    some between
  else none

theorem splitBytes?_append (front rest : List Char) :
    splitBytes? (byteLength front) (front ++ rest) = some (front, rest) := by
  induction front with
  | nil => rw [byteLength, splitBytes?]; rfl
  | cons c front ih =>
      obtain ⟨n, hn⟩ := Nat.exists_eq_add_one_of_ne_zero (byteLength_cons_ne_zero c front)
      have hleft : n + 1 - c.utf8Size = byteLength front := by
        rw [← hn, byteLength, Nat.add_sub_cancel_left]
      have hle : c.utf8Size ≤ n + 1 := by
        rw [← hn, byteLength]
        exact Nat.le_add_right _ _
      rw [hn, List.cons_append, splitBytes?, if_pos hle, hleft, ih]
      rfl

theorem slice?_append (front between rest : List Char) :
    slice? (byteLength front) (byteLength (front ++ between)) (front ++ (between ++ rest)) = some between := by
  have hle : byteLength front ≤ byteLength (front ++ between) := by
    rw [byteLength_append]
    exact Nat.le_add_right _ _
  rw [slice?, if_pos hle, splitBytes?_append, byteLength_append, Nat.add_sub_cancel_left]
  simp only [Option.bind_eq_bind, Option.bind_some, splitBytes?_append]

open SourceText

/-- The place with nothing taken for granted: the line start is searched for by halving, its index must not run below
zero or out of range, and a slice that splits a character is empty. -/
def placeAt (s : SourceText) (offset : Nat) : Option Place := do
  let line ← search s.lineStarts offset s.lineStarts.length 0 s.lineStarts.length
  if line = 0 then none
  else
    let start ← s.lineStarts[line - 1]?
    Place.ofCounts s.file line ((slice? start offset s.text).getD []).length

theorem search_lineStarts (file source : String) (offset : Nat) :
    let s := ofString file source
    search s.lineStarts offset s.lineStarts.length 0 s.lineStarts.length =
      some (s.lineStarts.takeWhile (· ≤ offset)).length := by
  intro s
  refine search_eq (fun i hi => getElem_le_iff (pairwise_lineStarts file source) offset hi) (Nat.zero_le _) ?_ le_rfl ?_
  · exact (List.takeWhile_prefix _).length_le
  · exact Nat.sub_le _ _

theorem placeAt_eq (file front rest : String) :
    let s := ofString file (front ++ rest)
    placeAt s (byteLength front.toList) = s.placeAt (byteLength front.toList) := by
  intro s
  obtain ⟨lines, hlines, hlast⟩ := getLast?_lineStartsOf front.toList
  have hstart : s.lineStarts[1 + front.toList.count '\n' - 1]? = some (byteLength lines) := by
    rw [Nat.add_sub_cancel_left, lineStarts_getElem?, hlast]
  have hslice : slice? (byteLength lines) (byteLength front.toList) s.text =
      some (front.toList.rtakeWhile (· != '\n')) := by
    have hcut := slice?_append lines (front.toList.rtakeWhile (· != '\n')) rest.toList
    rwa [← List.append_assoc, ← hlines, ← String.toList_append] at hcut
  have hne : 1 + front.toList.count '\n' ≠ 0 := by omega
  rw [placeAt, search_lineStarts, takeWhile_lineStarts, length_lineStartsOf, placeAt_append]
  simp only [Option.bind_eq_bind, Option.bind_some, if_neg hne, hstart, hslice, Option.getD_some]
  rfl

end Strict

section Order

/-- The line and column behind a text. -/
def lineCol (front : List Char) : Nat × Nat :=
  (1 + front.count '\n', 1 + (front.rtakeWhile (· != '\n')).length)

theorem lineCol_concat (front : List Char) (c : Char) : lineCol (front ++ [c]) =
    if c = '\n' then ((lineCol front).1 + 1, 1) else ((lineCol front).1, (lineCol front).2 + 1) := by
  split
  next hc =>
    simp [lineCol, hc, Nat.add_assoc]
  next hc =>
    have htail : (front ++ [c]).rtakeWhile (· != '\n') = front.rtakeWhile (· != '\n') ++ [c] :=
      List.rtakeWhile_concat_pos _ _ _ (by simp [hc])
    simp [lineCol, htail, List.count_append, hc, Nat.add_assoc]

theorem lineCol_lt_concat (front : List Char) (c : Char) : toLex (lineCol front) < toLex (lineCol (front ++ [c])) := by
  rw [Prod.Lex.toLex_lt_toLex, lineCol_concat]
  split
  · exact .inl (Nat.lt_succ_self _)
  · exact .inr ⟨rfl, Nat.lt_succ_self _⟩

theorem lineCol_lt_append (front : List Char) {more : List Char} (h : more ≠ []) :
    toLex (lineCol front) < toLex (lineCol (front ++ more)) := by
  induction more using List.reverseRecOn with
  | nil => exact absurd rfl h
  | append_singleton more c ih =>
      have hlast := lineCol_lt_concat (front ++ more) c
      rw [← List.append_assoc]
      by_cases hnil : more = []
      · rwa [hnil, List.append_nil] at hlast ⊢
      · exact (ih hnil).trans hlast

end Order

section Positions

variable {source : String}

def charsBefore (p : source.Pos) : List Char := (source.sliceTo p).copy.toList

theorem byteIdx_offset (p : source.Pos) : p.offset.byteIdx = byteLength (charsBefore p) := by
  rw [p.splits.offset_eq_rawEndPos, charsBefore, byteLength_toList]
  rfl

theorem exists_charsBefore_append {p q : source.Pos} (h : p < q) : ∃ more ≠ [], charsBefore q = charsBefore p ++ more := by
  obtain ⟨more, hne, hmore, _⟩ := (p.splits.lt_iff_exists_eq_append q.splits).mp h
  refine ⟨more.toList, fun hnil => hne (String.toList_inj.mp hnil), ?_⟩
  rw [charsBefore, hmore, String.toList_append]
  rfl

theorem charsBefore_endPos (source : String) : charsBefore source.endPos = source.toList := by
  simp [charsBefore]

namespace SourceText

def placeOf (file : String) (p : source.Pos) : Option Place := (ofString file source).placeAt p.offset.byteIdx

theorem placeOf_eq (file : String) (p : source.Pos) :
    placeOf file p = Place.ofCounts file (1 + (charsBefore p).count '\n') ((charsBefore p).rtakeWhile (· != '\n')).length := by
  have hplace := placeAt_append file (source.sliceTo p).copy (source.sliceFrom p).copy
  rw [← p.splits.eq_append] at hplace
  rw [placeOf, byteIdx_offset]
  exact hplace

theorem strict_placeAt_eq (file : String) (p : source.Pos) :
    Strict.placeAt (ofString file source) p.offset.byteIdx = placeOf file p := by
  have hstrict := Strict.placeAt_eq file (source.sliceTo p).copy (source.sliceFrom p).copy
  rw [← p.splits.eq_append] at hstrict
  rw [placeOf, byteIdx_offset]
  exact hstrict

/-- The line and the column in front of the position fit into four bytes. -/
def Fits (p : source.Pos) : Prop :=
  (charsBefore p).count '\n' + 1 < 2 ^ 32 ∧ ((charsBefore p).rtakeWhile (· != '\n')).length + 1 < 2 ^ 32

theorem placeOf_of_fits (file : String) {p : source.Pos} (h : Fits p) : placeOf file p =
    some ⟨file, (lineCol (charsBefore p)).1, (lineCol (charsBefore p)).2⟩ := by
  obtain ⟨hfeeds, hchars⟩ := h
  rw [placeOf_eq, Place.ofCounts, Nat.mod_eq_of_lt (by omega), Nat.mod_eq_of_lt (by omega), if_pos (by omega), lineCol,
    Nat.add_comm 1 (List.length _)]

end SourceText

end Positions

section Wrapping

theorem length_le_byteLength (cs : List Char) : cs.length ≤ byteLength cs := by
  induction cs with
  | nil => exact le_rfl
  | cons c cs ih =>
      have hpos := c.utf8Size_pos
      rw [List.length_cons, byteLength]
      omega

theorem count_add_length_rtakeWhile_le (cs : List Char) :
    cs.count '\n' + (cs.rtakeWhile (· != '\n')).length ≤ cs.length := by
  induction cs using List.reverseRecOn with
  | nil => exact le_rfl
  | append_singleton cs c ih =>
      by_cases hc : c = '\n'
      · have hcount : (cs ++ [c]).count '\n' ≤ (cs ++ [c]).length := List.count_le_length
        rwa [List.rtakeWhile_concat_neg _ _ _ (by simp [hc])]
      · have hcount : [c].count '\n' = 0 := List.count_eq_zero.mpr (by simpa using Ne.symm hc)
        rw [List.rtakeWhile_concat_pos _ _ _ (by simp [hc]), List.count_append, hcount, List.length_append,
          List.length_append]
        omega

theorem byteLength_charsBefore_le {source : String} (p : source.Pos) : byteLength (charsBefore p) ≤ source.utf8ByteSize := by
  have hsplit := congrArg (fun s => byteLength s.toList) p.splits.eq_append
  simp only [String.toList_append, byteLength_append, byteLength_toList source] at hsplit
  rw [hsplit]
  exact Nat.le_add_right _ _

/-- Where a count does not fit, all the text is in front, in characters of one byte, and these are all line feeds or
none is. -/
theorem SourceText.placeOf_of_not_fits (file : String) {source : String} (hsource : source.utf8ByteSize < 2 ^ 32)
    {p : source.Pos} (h : ¬ Fits p) : p.offset.byteIdx + 1 = 2 ^ 32 ∧
      ((∀ c ∈ charsBefore p, c = '\n') ∧ placeOf file p = some ⟨file, 0, 1⟩ ∨
        '\n' ∉ charsBefore p ∧ placeOf file p = none) := by
  have hbytes := byteLength_charsBefore_le p
  have hlength := length_le_byteLength (charsBefore p)
  have hsum := count_add_length_rtakeWhile_le (charsBefore p)
  rw [byteIdx_offset, placeOf_eq]
  rw [Fits, not_and_or] at h
  rcases h with hfeeds | hchars
  · have hcount : (charsBefore p).count '\n' = (charsBefore p).length := by omega
    have hnone : ((charsBefore p).rtakeWhile (· != '\n')).length = 0 := by omega
    refine ⟨by omega, .inl ⟨fun c hc => (List.count_eq_length.mp hcount c hc).symm, ?_⟩⟩
    have hline : 1 + (charsBefore p).count '\n' = 4294967296 := by omega
    rw [hnone, hline]
    rfl
  · have hcount : (charsBefore p).count '\n' = 0 := by omega
    have hcol : ((charsBefore p).rtakeWhile (· != '\n')).length = 4294967295 := by omega
    refine ⟨by omega, .inr ⟨List.count_eq_zero.mp hcount, ?_⟩⟩
    rw [hcol]
    rfl

end Wrapping

/-- In a text below four gigabytes the line is counted by the line feeds in front of a character, and the column by the
characters behind the last of these, unless a count does not fit into four bytes. That happens only at the end of a text of
`2 ^ 32 - 1` bytes: the line of that many line feeds is zero, and there is no place behind that many other characters.
The search for the line and the slice for the column always go through, and a later offset has a later place. -/
theorem SourceText.placeOf_exact_iff (file source : String) (hsource : source.utf8ByteSize < 2 ^ 32) :
    (∀ p : source.Pos,
      Strict.placeAt (ofString file source) p.offset.byteIdx = placeOf file p ∧
      (placeOf file p =
          some ⟨file, 1 + (charsBefore p).count '\n', 1 + ((charsBefore p).rtakeWhile (· != '\n')).length⟩ ↔ Fits p) ∧
      (p.offset.byteIdx + 1 < 2 ^ 32 → Fits p) ∧
      (¬ Fits p → p.offset.byteIdx + 1 = 2 ^ 32 ∧
        ((∀ c ∈ charsBefore p, c = '\n') ∧ placeOf file p = some ⟨file, 0, 1⟩ ∨
          '\n' ∉ charsBefore p ∧ placeOf file p = none))) ∧
      ∀ p q : source.Pos, p < q → Fits q → ∃ a b, placeOf file p = some a ∧ placeOf file q = some b ∧
        toLex (a.line, a.col) < toLex (b.line, b.col) := by
  have hfits (p : source.Pos) (hp : p.offset.byteIdx + 1 < 2 ^ 32) : Fits p := by
    by_contra hnot
    exact absurd (placeOf_of_not_fits file hsource hnot).1 (Nat.ne_of_lt hp)
  refine ⟨fun p => ⟨strict_placeAt_eq file p, ⟨fun hplace => ?_, placeOf_of_fits file⟩, hfits p,
    placeOf_of_not_fits file hsource⟩, fun p q hlt hq => ?_⟩
  · by_contra hnot
    obtain ⟨_, ⟨_, hwrapped⟩ | ⟨_, hnone⟩⟩ := placeOf_of_not_fits file hsource hnot
    · rw [hwrapped, Option.some.injEq, Place.mk.injEq] at hplace
      omega
    · rw [hnone] at hplace
      cases hplace
  · obtain ⟨more, hne, hmore⟩ := exists_charsBefore_append hlt
    have hp : p.offset.byteIdx + 1 < 2 ^ 32 := by
      have hbytes := byteLength_charsBefore_le q
      have hmoreBytes := length_le_byteLength more
      have hpos := List.length_pos_iff.mpr hne
      rw [hmore, byteLength_append] at hbytes
      rw [byteIdx_offset]
      omega
    refine ⟨_, _, placeOf_of_fits file (hfits p hp), placeOf_of_fits file hq, ?_⟩
    rw [hmore]
    exact lineCol_lt_append _ hne

def accented : String := "é\n\n€x"

theorem placeOf_accented :
    let feed : accented.Pos := ⟨⟨3⟩, by decide⟩
    accented.utf8ByteSize < 2 ^ 32 ∧ feed < accented.endPos ∧ SourceText.placeOf "f" feed = some ⟨"f", 2, 1⟩ ∧
      SourceText.placeOf "f" accented.endPos = some ⟨"f", 3, 3⟩ ∧
      Strict.placeAt (SourceText.ofString "f" accented) 8 = some ⟨"f", 3, 3⟩ ∧
      ∃ a b, SourceText.placeOf "f" feed = some a ∧ SourceText.placeOf "f" accented.endPos = some b ∧
        toLex (a.line, a.col) < toLex (b.line, b.col) := by
  intro feed
  have hsource : accented.utf8ByteSize < 2 ^ 32 := by decide
  obtain ⟨hexact, hascends⟩ := SourceText.placeOf_exact_iff "f" accented hsource
  have hlt : feed < accented.endPos := by decide
  have hend : SourceText.placeOf "f" accented.endPos = some ⟨"f", 3, 3⟩ := by decide
  obtain ⟨hstrict, _, hfits, _⟩ := hexact accented.endPos
  rw [hend] at hstrict
  exact ⟨hsource, hlt, by decide, hend, hstrict, hascends feed accented.endPos hlt (hfits (by decide))⟩

def repeated (n : Nat) (c : Char) : String := String.ofList (List.replicate n c)

theorem byteLength_replicate (n : Nat) (c : Char) : byteLength (List.replicate n c) = n * c.utf8Size := by
  induction n with
  | zero => rw [List.replicate_zero, Nat.zero_mul]; rfl
  | succ n ih => rw [List.replicate_succ, byteLength, ih, Nat.succ_mul, Nat.add_comm]

theorem utf8ByteSize_repeated (n : Nat) {c : Char} (hc : c.utf8Size = 1) : (repeated n c).utf8ByteSize = n := by
  rw [← byteLength_toList, repeated, String.toList_ofList, byteLength_replicate, hc, Nat.mul_one]

theorem charsBefore_repeated (n : Nat) (c : Char) : charsBefore (repeated n c).endPos = List.replicate n c := by
  rw [charsBefore_endPos, repeated, String.toList_ofList]

theorem SourceText.placeOf_repeated_feed (file : String) (n : Nat) :
    placeOf file (repeated n '\n').endPos = Place.ofCounts file (1 + n) 0 := by
  have hlast : (List.replicate n '\n').rtakeWhile (· != '\n') = [] := by
    simp [List.rtakeWhile]
  rw [placeOf_eq, charsBefore_repeated, List.count_replicate_self, hlast, List.length_nil]

theorem SourceText.placeOf_repeated (file : String) (n : Nat) {c : Char} (hc : c ≠ '\n') :
    placeOf file (repeated n c).endPos = Place.ofCounts file 1 n := by
  have hlast : (List.replicate n c).rtakeWhile (· != '\n') = List.replicate n c := by
    simp [List.rtakeWhile, hc]
  have hcount : (List.replicate n c).count '\n' = 0 := by
    simp [List.count_replicate, hc]
  rw [placeOf_eq, charsBefore_repeated, hcount, hlast, List.length_replicate]

/-- The line behind `2 ^ 32 - 1` line feeds is zero, and there is no column behind as many other characters. -/
theorem placeOf_end_overlong :
    ((repeated 4294967295 '\n').utf8ByteSize < 2 ^ 32 ∧
      SourceText.placeOf "f" (repeated 4294967295 '\n').endPos = some ⟨"f", 0, 1⟩) ∧
    (repeated 4294967295 'x').utf8ByteSize < 2 ^ 32 ∧
      SourceText.placeOf "f" (repeated 4294967295 'x').endPos = none := by
  have hx : 'x' ≠ '\n' := by decide
  rw [utf8ByteSize_repeated _ (by decide), utf8ByteSize_repeated _ (by decide), SourceText.placeOf_repeated_feed,
    SourceText.placeOf_repeated _ _ hx]
  decide

end Memoizer
