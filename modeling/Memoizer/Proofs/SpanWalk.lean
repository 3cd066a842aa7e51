import Mathlib
import Memoizer.Proofs.Partition

namespace Memoizer

namespace Body

variable {b : Body} {facts : SideTable Facts}

theorem mem_ids_itemOf {span : Span} {id : InstId} (hstart : span.start ≤ id) (hstop : id ≤ span.stop) :
    id ∈ (b.itemOf facts span).ids := by
  rw [itemOf]
  split
  next hsingle =>
    have hid : id = span.start := Nat.le_antisymm (hstop.trans_eq hsingle.1.symm) hstart
    exact List.mem_singleton.mpr hid
  next => exact Span.mem_ids_iff.mpr (Span.contains_iff.mpr ⟨hstart, hstop⟩)

section Turns

variable {next : InstId}

theorem passes_of_le {start stop : InstId} (h : stop ≤ start) : passes start stop = [] := by
  rw [passes, Nat.sub_eq_zero_of_le h]
  rfl

theorem passes_of_lt {start stop : InstId} (h : start < stop) : passes start stop = .pass start :: passes (start + 1) stop := by
  have hlen : stop - start = stop - (start + 1) + 1 := by lia
  rw [passes, hlen, List.range'_succ]
  rfl

theorem tile_pass {spans : List Span} (hnext : next < b.size) (hfront : ∀ span ∈ spans.head?, next < span.start) :
    b.tile facts next spans = (b.tile facts (next + 1) spans).map (.pass next :: ·) := by
  cases spans with
  | nil => rw [tile, tile, passes_of_lt hnext, Except.map]
  | cons span spans =>
      have hlt : next < span.start := hfront span rfl
      have hmax : max (next + 1) span.start = max next span.start := by lia
      rw [tile, tile, hmax, passes_of_lt (Nat.lt_min.mpr ⟨hlt, hnext⟩)]
      split
      · cases b.spanItem facts span with
        | error e => rfl
        | ok item => cases b.tile facts (span.stop + 1) spans <;> rfl
      · rfl

theorem tile_take {span : Span} {spans : List Span} (hnext : next < b.size) (hstart : span.start ≤ next)
    (hstop : span.stop < b.size) :
    b.tile facts next (span :: spans) = (b.tile facts (span.stop + 1) spans).map (b.itemOf facts span :: ·) := by
  have hfront : passes next (min span.start b.size) = [] := passes_of_le ((Nat.min_le_left _ _).trans hstart)
  rw [tile, Nat.max_eq_left hstart, if_pos hnext, hfront, spanItem_eq_itemOf facts hstop]
  cases b.tile facts (span.stop + 1) spans <;> rfl

end Turns

end Body

/-- Where the walk stands: the id it looks at, the spans ahead, and the items so far, each with the span that it was made
of, if it was made of one. -/
structure Walk where
  next : InstId
  ahead : List Span
  made : List (PartItem × Option Span)

namespace Walk

def ofSpans (spans : List Span) : Walk := ⟨0, spans, []⟩

def items (w : Walk) : List PartItem := w.made.map Prod.fst

def taken (w : Walk) : List Span := w.made.filterMap Prod.snd

def pass (w : Walk) : Walk := ⟨w.next + 1, w.ahead, w.made ++ [(.pass w.next, none)]⟩

def take (w : Walk) (span : Span) (spans : List Span) (item : PartItem) : Walk :=
  ⟨span.stop + 1, spans, w.made ++ [(item, some span)]⟩

def turn (b : Body) (facts : SideTable Facts) (w : Walk) : Except Error Walk :=
  match w.ahead with
  | [] => .ok w.pass
  | span :: spans =>
    if w.next < span.start then .ok w.pass
    else do
      let item ← b.spanItem facts span
      .ok (w.take span spans item)

def run (b : Body) (facts : SideTable Facts) : Nat → Walk → Except Error Walk
  | 0, w => .ok w
  | turns + 1, w =>
    if w.next < b.size then do
      let w' ← w.turn b facts
      run b facts turns w'
    else .ok w

/-- The walk takes no more turns than this from here on: at worst every span ahead sends it back to the start of the body. -/
def turnsLeft (b : Body) (w : Walk) : Nat := w.ahead.length * (b.size + 1) + (b.size - w.next)

/-- What holds between two turns. Going on with the spans ahead always comes to the items of all `spans`. -/
structure OnCourse (b : Body) (facts : SideTable Facts) (spans : List Span) (w : Walk) : Prop where
  next_le : w.next ≤ b.size
  covered : ∀ id < w.next, ∃ item ∈ w.items, id ∈ item.ids
  taken_append_ahead : w.taken ++ w.ahead = spans
  made_of : ∀ item origin, (item, origin) ∈ w.made →
    (origin = none ∧ ∃ id < b.size, item = .pass id) ∨ ∃ span, origin = some span ∧ item = b.itemOf facts span
  comes_to : (b.tile facts w.next w.ahead).map (w.items ++ ·) = b.partitionSpans facts spans

variable {b : Body} {facts : SideTable Facts} {spans : List Span} {w : Walk}

theorem items_pass (w : Walk) : w.pass.items = w.items ++ [.pass w.next] := List.map_append

theorem items_take (w : Walk) (span : Span) (spans : List Span) (item : PartItem) :
    (w.take span spans item).items = w.items ++ [item] := List.map_append

theorem taken_pass (w : Walk) : w.pass.taken = w.taken := by simp [taken, pass]

theorem taken_take (w : Walk) (span : Span) (spans : List Span) (item : PartItem) :
    (w.take span spans item).taken = w.taken ++ [span] := by simp [taken, take]

theorem turn_cases (facts : SideTable Facts) (hends : ∀ s ∈ w.ahead, s.stop < b.size) :
    ((∀ span ∈ w.ahead.head?, w.next < span.start) ∧ w.turn b facts = .ok w.pass) ∨
    ∃ span rest, w.ahead = span :: rest ∧ span.start ≤ w.next ∧
      w.turn b facts = .ok (w.take span rest (b.itemOf facts span)) := by
  cases hahead : w.ahead with
  | nil =>
      left
      rw [turn, hahead]
      exact ⟨by simp, rfl⟩
  | cons span rest =>
      by_cases hlt : w.next < span.start
      · left
        rw [turn, hahead]
        exact ⟨by simpa using hlt, if_pos hlt⟩
      · right
        have hitem := Body.spanItem_eq_itemOf facts (hends span (by simp [hahead]))
        refine ⟨span, rest, rfl, Nat.not_lt.mp hlt, ?_⟩
        rw [turn, hahead]
        simp only [if_neg hlt, hitem]
        rfl

namespace OnCourse

theorem start (b : Body) (facts : SideTable Facts) (spans : List Span) : OnCourse b facts spans (ofSpans spans) where
  next_le := Nat.zero_le _
  covered _ h := absurd h (Nat.not_lt_zero _)
  taken_append_ahead := rfl
  made_of _ _ h := absurd h List.not_mem_nil
  comes_to := by
    change (b.tile facts 0 spans).map ([] ++ ·) = b.tile facts 0 spans
    cases b.tile facts 0 spans <;> rfl

theorem mem_spans (h : OnCourse b facts spans w) {s : Span} (hs : s ∈ w.ahead) : s ∈ spans := by
  rw [← h.taken_append_ahead]
  exact List.mem_append_right _ hs

theorem pass (h : OnCourse b facts spans w) (hnext : w.next < b.size)
    (hfront : ∀ span ∈ w.ahead.head?, w.next < span.start) : OnCourse b facts spans w.pass where
  next_le := hnext
  covered id hid := by
    rw [items_pass]
    rcases Nat.lt_succ_iff_lt_or_eq.mp hid with hlt | rfl
    · obtain ⟨item, hitem, hmem⟩ := h.covered id hlt
      exact ⟨item, List.mem_append_left _ hitem, hmem⟩
    · exact ⟨.pass w.next, by simp, List.mem_singleton_self _⟩
  taken_append_ahead := by rw [taken_pass]; exact h.taken_append_ahead
  made_of item origin hmem := by
    rcases List.mem_append.mp hmem with hold | hnew
    · exact h.made_of item origin hold
    · cases List.mem_singleton.mp hnew
      exact .inl ⟨rfl, w.next, hnext, rfl⟩
  comes_to := by
    rw [← h.comes_to, Body.tile_pass hnext hfront, items_pass]
    change (b.tile facts (w.next + 1) w.ahead).map _ = _
    cases b.tile facts (w.next + 1) w.ahead <;> simp [Except.map]

theorem take (h : OnCourse b facts spans w) (hnext : w.next < b.size) {span : Span} {rest : List Span}
    (hahead : w.ahead = span :: rest) (hstart : span.start ≤ w.next) (hstop : span.stop < b.size) :
    OnCourse b facts spans (w.take span rest (b.itemOf facts span)) where
  next_le := hstop
  covered id hid := by
  -- The ids in front of the span lie in front of `next` as well, wherever the span stops.
    rw [items_take]
    by_cases hbefore : id < span.start
    · obtain ⟨item, hitem, hmem⟩ := h.covered id (hbefore.trans_le hstart)
      exact ⟨item, List.mem_append_left _ hitem, hmem⟩
    · exact ⟨b.itemOf facts span, by simp, Body.mem_ids_itemOf (Nat.not_lt.mp hbefore) (Nat.le_of_lt_succ hid)⟩
  taken_append_ahead := by
    rw [taken_take, List.append_assoc, List.singleton_append, ← h.taken_append_ahead, hahead]
    rfl
  made_of item origin hmem := by
    rcases List.mem_append.mp hmem with hold | hnew
    · exact h.made_of item origin hold
    · cases List.mem_singleton.mp hnew
      exact .inr ⟨span, rfl, rfl⟩
  comes_to := by
    rw [← h.comes_to, hahead, Body.tile_take hnext hstart hstop, items_take]
    change (b.tile facts (span.stop + 1) rest).map _ = _
    cases b.tile facts (span.stop + 1) rest <;> simp [Except.map]

theorem turn (h : OnCourse b facts spans w) (hends : ∀ s ∈ spans, s.stop < b.size) (hnext : w.next < b.size) :
    ∃ w', w.turn b facts = .ok w' ∧ OnCourse b facts spans w' ∧ w'.turnsLeft b < w.turnsLeft b := by
  have hahead : ∀ s ∈ w.ahead, s.stop < b.size := fun s hs => hends s (h.mem_spans hs)
  rcases turn_cases facts hahead with ⟨hfront, hturn⟩ | ⟨span, rest, hcons, hstart, hturn⟩
  · refine ⟨_, hturn, h.pass hnext hfront, ?_⟩
    simp only [turnsLeft, Walk.pass]
    lia
  · refine ⟨_, hturn, h.take hnext hcons hstart (hahead span (by simp [hcons])), ?_⟩
    simp only [turnsLeft, Walk.take, hcons, List.length_cons, Nat.succ_mul]
    omega

theorem run (h : OnCourse b facts spans w) (hends : ∀ s ∈ spans, s.stop < b.size) {turns : Nat}
    (hturns : w.turnsLeft b ≤ turns) :
    ∃ w', w.run b facts turns = .ok w' ∧ b.size ≤ w'.next ∧ OnCourse b facts spans w' := by
  induction turns generalizing w with
  | zero =>
      refine ⟨w, rfl, ?_, h⟩
      simp only [turnsLeft] at hturns
      omega
  | succ turns ih =>
      by_cases hnext : w.next < b.size
      · obtain ⟨w', hturn, h', hlt⟩ := h.turn hends hnext
        obtain ⟨w'', hrun, hend, h''⟩ := ih h' (by omega)
        refine ⟨w'', ?_, hend, h''⟩
        rw [Walk.run, if_pos hnext, hturn]
        exact hrun
      · exact ⟨w, by rw [Walk.run, if_neg hnext], Nat.not_lt.mp hnext, h⟩

end OnCourse

end Walk

end Memoizer
