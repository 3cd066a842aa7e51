import Mathlib.Data.Finset.Card
import Mathlib.Data.Finset.Lattice.Fold
import Mathlib.Logic.Relation
import Memoizer.Partition.UnionFind

namespace Memoizer.UnionFind

def rankOf (u : UnionFind) (x : Nat) : Nat := u.rank.getD x 0

def members (n : Nat) (rep : Nat → Nat) (r : Nat) : Finset Nat := (Finset.range n).filter (rep · = r)

/-- Ranks grow strictly towards the representative, and a representative of rank `r` has at least
`2 ^ r` members. -/
structure Represents (u : UnionFind) (rep : Nat → Nat) : Prop where
  rank_size : u.rank.size = u.size
  parent_lt : ∀ x < u.size, parentOf u.parent x < u.size
  rep_lt : ∀ x < u.size, rep x < u.size
  parent_rep : ∀ x < u.size, parentOf u.parent (rep x) = rep x
  rep_parent : ∀ x < u.size, rep (parentOf u.parent x) = rep x
  rep_root : ∀ x < u.size, parentOf u.parent x = x → rep x = x
  rank_lt : ∀ x < u.size, parentOf u.parent x ≠ x → u.rankOf x < u.rankOf (parentOf u.parent x)
  pow_rank_le : ∀ r < u.size, rep r = r → 2 ^ u.rankOf r ≤ (members u.size rep r).card

theorem parentOf_set (parent : Array Nat) (i v x : Nat) :
    parentOf (parent.setIfInBounds i v) x = if x = i ∧ i < parent.size then v else parentOf parent x := by
  simp only [parentOf, Array.getD_eq_getD_getElem?, Array.getElem?_setIfInBounds]
  by_cases hx : i = x
  · subst hx
    by_cases hi : i < parent.size <;> simp [hi]
  · simp [hx, Ne.symm hx]

theorem ofSize_represents (n : Nat) : Represents (ofSize n) id := by
  have hp (x : Nat) : parentOf (ofSize n).parent x = x := by
    simp only [ofSize, parentOf, Array.getD_eq_getD_getElem?]
    by_cases hx : x < n <;> simp [hx]
  have hr (x : Nat) : (ofSize n).rankOf x = 0 := by
    simp only [ofSize, rankOf, Array.getD_eq_getD_getElem?]
    by_cases hx : x < n <;> simp [hx]
  refine ⟨by simp [ofSize, size], ?_, fun _ h => h, fun x _ => hp x, fun x _ => hp x, fun _ _ _ => rfl, ?_, ?_⟩
  · intro x hx; rwa [hp]
  · intro x _ h; exact absurd (hp x) h
  · intro r hr' _
    rw [hr]
    exact Finset.card_pos.mpr ⟨r, by simp [members, hr']⟩

variable {u : UnionFind} {rep : Nat → Nat}

namespace Represents

theorem rep_rep (h : u.Represents rep) {x : Nat} (hx : x < u.size) : rep (rep x) = rep x :=
  h.rep_root _ (h.rep_lt x hx) (h.parent_rep x hx)

theorem parent_ne (h : u.Represents rep) {x : Nat} (hx : x < u.size) (hne : rep x ≠ x) :
    parentOf u.parent x ≠ x := fun he => hne (h.rep_root x hx he)

theorem rank_le_rank_rep (h : u.Represents rep) {x : Nat} (hx : x < u.size) :
    u.rankOf x ≤ u.rankOf (rep x) := by
  have hM : ∀ y < u.size, u.rankOf y ≤ (Finset.range u.size).sup u.rankOf :=
    fun y hy => Finset.le_sup (f := u.rankOf) (Finset.mem_range.mpr hy)
  -- The ranks on the path grow, and none exceeds the largest of all.
  generalize (Finset.range u.size).sup u.rankOf = M at hM
  induction hd : M - u.rankOf x using Nat.strong_induction_on generalizing x with
  | _ d ih =>
      by_cases hroot : parentOf u.parent x = x
      · rw [h.rep_root x hx hroot]
      · have hlt := h.rank_lt x hx hroot
        have hp := h.parent_lt x hx
        have hle := hM _ hp
        have := ih (M - u.rankOf (parentOf u.parent x)) (by omega) hp rfl
        rw [h.rep_parent x hx] at this
        omega

theorem rank_lt_rank_rep (h : u.Represents rep) {x : Nat} (hx : x < u.size) (hne : rep x ≠ x) :
    u.rankOf x < u.rankOf (rep x) := by
  have hlt := h.rank_lt x hx (h.parent_ne hx hne)
  have hle := h.rank_le_rank_rep (h.parent_lt x hx)
  rw [h.rep_parent x hx] at hle
  omega

theorem pow_rank_le_size (h : u.Represents rep) {x : Nat} (hx : x < u.size) : 2 ^ u.rankOf x ≤ u.size :=
  calc 2 ^ u.rankOf x ≤ 2 ^ u.rankOf (rep x) := Nat.pow_le_pow_right (by decide) (h.rank_le_rank_rep hx)
    _ ≤ (members u.size rep (rep x)).card := h.pow_rank_le _ (h.rep_lt x hx) (h.rep_rep hx)
    _ ≤ (Finset.range u.size).card := Finset.card_filter_le _ _
    _ = u.size := Finset.card_range _

theorem rank_lt_size (h : u.Represents rep) {x : Nat} (hx : x < u.size) : u.rankOf x < u.size :=
  Nat.lt_two_pow_self.trans_le (h.pow_rank_le_size hx)

theorem climb_eq (h : u.Represents rep) (fuel : Nat) {x : Nat} (hx : x < u.size)
    (hfuel : u.size ≤ fuel + u.rankOf x) : climb u.parent fuel x = rep x := by
  induction fuel generalizing x with
  | zero => have := h.rank_lt_size hx; omega
  | succ fuel ih =>
      by_cases hroot : parentOf u.parent x = x
      · rw [climb, if_pos hroot, h.rep_root x hx hroot]
      · have hlt := h.rank_lt x hx hroot
        rw [climb, if_neg hroot, ih (h.parent_lt x hx) (by omega), h.rep_parent x hx]

theorem root_eq (h : u.Represents rep) {x : Nat} (hx : x < u.size) : u.root x = rep x :=
  h.climb_eq u.size hx (by omega)

theorem shortcut (h : u.Represents rep) {x : Nat} (hx : x < u.size) (hne : rep x ≠ x) :
    Represents { u with parent := u.parent.setIfInBounds x (rep x) } rep := by
  have hx' : x < u.parent.size := hx
  have hp (y : Nat) : parentOf (u.parent.setIfInBounds x (rep x)) y = if y = x then rep x else parentOf u.parent y := by
    simp [parentOf_set, hx']
  have hs : ({ u with parent := u.parent.setIfInBounds x (rep x) } : UnionFind).size = u.size := by simp [size]
  have hr (y : Nat) : ({ u with parent := u.parent.setIfInBounds x (rep x) } : UnionFind).rankOf y = u.rankOf y := rfl
  constructor
  · simpa only [hs] using h.rank_size
  all_goals simp only [hs, hp, hr]
  · intro y hy
    split
    · exact h.rep_lt x hx
    · exact h.parent_lt y hy
  · exact h.rep_lt
  · intro y hy
    split
    next he => rw [← he, h.rep_rep hy]
    next => exact h.parent_rep y hy
  · intro y hy
    split
    next he => rw [h.rep_rep hx, he]
    next => exact h.rep_parent y hy
  · intro y hy hroot
    split at hroot
    next he => rw [he, hroot, he]
    next => exact h.rep_root y hy hroot
  · intro y hy hne'
    split at hne'
    next he =>
      rw [if_pos he, he]
      exact h.rank_lt_rank_rep hx hne
    next he =>
      rw [if_neg he]
      exact h.rank_lt y hy hne'
  · exact h.pow_rank_le

theorem compress_represents (h : u.Represents rep) (fuel : Nat) {x : Nat} (hx : x < u.size) :
    Represents { u with parent := compress (rep x) fuel u.parent x } rep ∧
      (compress (rep x) fuel u.parent x).size = u.size := by
  induction fuel generalizing u x with
  | zero => exact ⟨h, rfl⟩
  | succ fuel ih =>
      rw [compress]
      split
      next => exact ⟨h, rfl⟩
      next hne =>
        have hs := h.shortcut hx (Ne.symm hne)
        have hsize : (u.parent.setIfInBounds x (rep x)).size = u.size := Array.size_setIfInBounds
        have hp : parentOf u.parent x < (u.parent.setIfInBounds x (rep x)).size :=
          (h.parent_lt x hx).trans_eq hsize.symm
        have hrest := ih hs hp
        rw [h.rep_parent x hx] at hrest
        exact ⟨hrest.1, hrest.2.trans hsize⟩

theorem find_fst (h : u.Represents rep) {x : Nat} (hx : x < u.size) : (u.find x).1 = rep x := h.root_eq hx

theorem find_snd (h : u.Represents rep) {x : Nat} (hx : x < u.size) :
    (u.find x).2.Represents rep ∧ (u.find x).2.size = u.size := by
  simp only [find, h.root_eq hx]
  exact h.compress_represents u.size hx

theorem findAll_eq (h : u.Represents rep) (xs : List Nat) (hxs : ∀ x ∈ xs, x < u.size) :
    u.findAll xs = xs.map rep := by
  induction xs generalizing u with
  | nil => rfl
  | cons x xs ih =>
      have hx := hxs x (by simp)
      obtain ⟨hr, hs⟩ := h.find_snd hx
      have hrest := ih hr fun y hy => (hxs y (by simp [hy])).trans_eq hs.symm
      simp only [findAll, List.map_cons, hrest, h.find_fst hx]

end Represents

def redirect (rep : Nat → Nat) (child top x : Nat) : Nat := if rep x = child then top else rep x

theorem members_redirect {n child top : Nat} (hne : child ≠ top) :
    members n (redirect rep child top) top = members n rep child ∪ members n rep top := by
  ext x
  simp only [members, redirect, Finset.mem_filter, Finset.mem_union, Finset.mem_range]
  by_cases hx : rep x = child <;> simp [hx, hne]

theorem members_redirect_of_ne {n child top r : Nat} (hc : r ≠ child) (ht : r ≠ top) :
    members n (redirect rep child top) r = members n rep r := by
  ext x
  rw [members, members, Finset.mem_filter, Finset.mem_filter, redirect]
  split
  next hx => simp [hx, Ne.symm hc, Ne.symm ht]
  next => rfl

theorem card_members_redirect {n child top : Nat} (hne : child ≠ top) :
    (members n (redirect rep child top) top).card = (members n rep child).card + (members n rep top).card := by
  rw [members_redirect hne, Finset.card_union_of_disjoint]
  refine Finset.disjoint_left.mpr fun x hc ht => hne ?_
  rw [← (Finset.mem_filter.mp hc).2, ← (Finset.mem_filter.mp ht).2]

/-- Only the rank of the new parent may change, and it has to stay within the joint class. -/
theorem Represents.attach (h : u.Represents rep) {child top : Nat} (hchild : child < u.size) (htop : top < u.size)
    (hc : rep child = child) (ht : rep top = top) (hne : child ≠ top) (rank : Array Nat)
    (hsize : rank.size = u.size) (hother : ∀ x, x ≠ top → rank.getD x 0 = u.rankOf x)
    (hlt : u.rankOf child < rank.getD top 0) (hle : u.rankOf top ≤ rank.getD top 0)
    (hpow : 2 ^ rank.getD top 0 ≤ (members u.size rep child).card + (members u.size rep top).card) :
    Represents ⟨u.parent.setIfInBounds child top, rank⟩ (redirect rep child top) := by
  have hchild' : child < u.parent.size := hchild
  have hpt : parentOf u.parent top = top := ht ▸ h.parent_rep top htop
  have hp (y : Nat) : parentOf (u.parent.setIfInBounds child top) y = if y = child then top else parentOf u.parent y := by
    simp [parentOf_set, hchild']
  have hs : (⟨u.parent.setIfInBounds child top, rank⟩ : UnionFind).size = u.size := by simp [size]
  have hr (y : Nat) : (⟨u.parent.setIfInBounds child top, rank⟩ : UnionFind).rankOf y = rank.getD y 0 := rfl
  constructor
  · simpa only [hs] using hsize
  all_goals simp only [hs, hp, hr]
  · intro y hy
    split
    · exact htop
    · exact h.parent_lt y hy
  · intro y hy
    rw [redirect]
    split
    · exact htop
    · exact h.rep_lt y hy
  · intro y hy
    by_cases hy' : rep y = child
    · simp [redirect, hy', Ne.symm hne, hpt]
    · simp [redirect, hy', h.parent_rep y hy]
  · intro y hy
    split
    next he => simp [redirect, he, hc, ht, Ne.symm hne]
    next => simp [redirect, h.rep_parent y hy]
  · intro y hy hroot
    split at hroot
    next he => exact absurd (he.symm.trans hroot.symm) hne
    next he =>
      have hrep := h.rep_root y hy hroot
      simp [redirect, hrep, he]
  · intro y hy hne'
    split at hne'
    next he =>
      rw [if_pos he, he, hother child hne]
      exact hlt
    next he =>
      rw [if_neg he]
      have hy' := h.rank_lt y hy hne'
      have hyt : y ≠ top := fun e => hne' (e ▸ hpt)
      rw [hother y hyt]
      by_cases hpy : parentOf u.parent y = top
      · rw [hpy] at hy' ⊢; omega
      · rwa [hother _ hpy]
  · intro r hr' hrep
    by_cases hrt : r = top
    · rw [hrt, card_members_redirect hne]
      exact hpow
    · have hrc : r ≠ child := by
        rintro rfl
        simp [redirect, hc] at hrep
        exact hne hrep.symm
      have hrr : rep r = r := by
        by_cases he : rep r = child
        · exact absurd (by simpa [redirect, he] using hrep.symm) hrt
        · simpa [redirect, he] using hrep
      rw [hother r hrt, members_redirect_of_ne hrc hrt]
      exact h.pow_rank_le r hr' hrr

theorem link_represents (h : u.Represents rep) {a b : Nat} (ha : a < u.size) (hb : b < u.size)
    (hra : rep a = a) (hrb : rep b = b) :
    ∃ child top, (child = a ∧ top = b ∨ child = b ∧ top = a) ∧
      (u.link a b).Represents (redirect rep child top) ∧ (u.link a b).size = u.size := by
  have hs : u.rank.size = u.size := h.rank_size
  have hca := h.pow_rank_le a ha hra
  have hcb := h.pow_rank_le b hb hrb
  rw [link]
  split
  next he =>
    refine ⟨a, b, .inl ⟨rfl, rfl⟩, ?_, rfl⟩
    have hid : redirect rep a b = rep := by
      funext x
      rw [redirect]
      split
      next hx => rw [hx, he]
      next => rfl
    rwa [hid]
  next hne =>
    split
    next hlt =>
      refine ⟨a, b, .inl ⟨rfl, rfl⟩, ?_, by simp [size]⟩
      exact h.attach ha hb hra hrb hne u.rank hs (fun _ _ => rfl) hlt le_rfl (hcb.trans (Nat.le_add_left _ _))
    next hge =>
      refine ⟨b, a, .inr ⟨rfl, rfl⟩, ?_, by simp [size]⟩
      have hle : u.rankOf b ≤ u.rankOf a := Nat.not_lt.mp hge
      split
      next heq =>
        have heq' : u.rankOf a = u.rankOf b := heq
        have hset (x : Nat) : (u.rank.setIfInBounds a (u.rankOf a + 1)).getD x 0 =
            if x = a then u.rankOf a + 1 else u.rankOf x := by
          simp only [rankOf, Array.getD_eq_getD_getElem?, Array.getElem?_setIfInBounds]
          by_cases hx : a = x
          · subst hx; simp [hs, ha]
          · simp [hx, Ne.symm hx]
        refine h.attach hb ha hrb hra (Ne.symm hne) (u.rank.setIfInBounds a (u.rankOf a + 1)) (by simp [hs])
          ?_ ?_ ?_ ?_
        · intro x hx; rw [hset, if_neg hx]
        · rw [hset, if_pos rfl]; omega
        · rw [hset, if_pos rfl]; omega
        · rw [hset, if_pos rfl, Nat.pow_succ]
          rw [heq'] at hca ⊢
          omega
      next hneq =>
        have hneq' : u.rankOf a ≠ u.rankOf b := hneq
        refine h.attach hb ha hrb hra (Ne.symm hne) u.rank hs (fun _ _ => rfl) ?_ le_rfl (hca.trans (Nat.le_add_left _ _))
        change u.rankOf b < u.rankOf a
        omega

/-- A union joins the classes of its two elements and no others. -/
theorem union_represents (h : u.Represents rep) {a b : Nat} (ha : a < u.size) (hb : b < u.size) :
    (u.union a b).size = u.size ∧ ∃ rep', (u.union a b).Represents rep' ∧
      ∀ x y, rep' x = rep' y ↔ rep x = rep y ∨ rep x = rep a ∧ rep y = rep b ∨ rep x = rep b ∧ rep y = rep a := by
  obtain ⟨h₁, hs₁⟩ := h.find_snd ha
  have hb₁ : b < (u.find a).2.size := hb.trans_eq hs₁.symm
  obtain ⟨h₂, hs₂⟩ := h₁.find_snd hb₁
  have hsize := hs₂.trans hs₁
  have ha₂ := (h.rep_lt a ha).trans_eq hsize.symm
  have hb₂ := (h.rep_lt b hb).trans_eq hsize.symm
  obtain ⟨child, top, hct, hl, hs⟩ := link_represents h₂ ha₂ hb₂ (h.rep_rep ha) (h.rep_rep hb)
  have he : u.union a b = ((u.find a).2.find b).2.link (rep a) (rep b) := by
    simp only [union, h.find_fst ha, h₁.find_fst hb₁]
  rw [he]
  refine ⟨hs.trans hsize, _, hl, ?_⟩
  intro x y
  rcases hct with ⟨rfl, rfl⟩ | ⟨rfl, rfl⟩ <;> simp only [redirect] <;> grind

/-- What a run of unions links: the equivalence that its pairs generate. -/
def Linked (pairs : List (Nat × Nat)) : Nat → Nat → Prop := Relation.EqvGen fun a b => (a, b) ∈ pairs

theorem linked_concat (pairs : List (Nat × Nat)) (a b x y : Nat) :
    Linked (pairs ++ [(a, b)]) x y ↔ Linked pairs x y ∨ Linked pairs x a ∧ Linked pairs y b ∨
      Linked pairs x b ∧ Linked pairs y a := by
  have hmono {x y : Nat} (h : Linked pairs x y) : Linked (pairs ++ [(a, b)]) x y :=
    Relation.EqvGen.mono (fun _ _ hp => List.mem_append_left _ hp) _ _ h
  have hab : Linked (pairs ++ [(a, b)]) a b := .rel _ _ (by simp)
  constructor
  · intro h
    induction h with
    | rel x y hp =>
        simp only [List.mem_append, List.mem_singleton, Prod.mk.injEq] at hp
        rcases hp with hp | ⟨rfl, rfl⟩
        · exact .inl (.rel _ _ hp)
        · exact .inr (.inl ⟨.refl _, .refl _⟩)
    | refl x => exact .inl (.refl _)
    | symm x y _ ih =>
        rcases ih with h | ⟨h₁, h₂⟩ | ⟨h₁, h₂⟩
        · exact .inl (.symm _ _ h)
        · exact .inr (.inr ⟨h₂, h₁⟩)
        · exact .inr (.inl ⟨h₂, h₁⟩)
    | trans x y z _ _ ih₁ ih₂ =>
        have tr {p q r : Nat} (h : Linked pairs p q) (h' : Linked pairs q r) : Linked pairs p r := .trans _ _ _ h h'
        have sy {p q : Nat} (h : Linked pairs p q) : Linked pairs q p := .symm _ _ h
        rcases ih₁ with h₁ | ⟨h₁, h₁'⟩ | ⟨h₁, h₁'⟩ <;> rcases ih₂ with h₂ | ⟨h₂, h₂'⟩ | ⟨h₂, h₂'⟩
        · exact .inl (tr h₁ h₂)
        · exact .inr (.inl ⟨tr h₁ h₂, h₂'⟩)
        · exact .inr (.inr ⟨tr h₁ h₂, h₂'⟩)
        · exact .inr (.inl ⟨h₁, tr (sy h₂) h₁'⟩)
        · exact .inr (.inl ⟨h₁, h₂'⟩)
        · exact .inl (tr h₁ (sy h₂'))
        · exact .inr (.inr ⟨h₁, tr (sy h₂) h₁'⟩)
        · exact .inl (tr h₁ (sy h₂'))
        · exact .inr (.inr ⟨h₁, h₂'⟩)
  · rintro (h | ⟨h₁, h₂⟩ | ⟨h₁, h₂⟩)
    · exact hmono h
    · exact .trans _ _ _ (.trans _ _ _ (hmono h₁) hab) (.symm _ _ (hmono h₂))
    · exact .trans _ _ _ (.trans _ _ _ (hmono h₁) (.symm _ _ hab)) (.symm _ _ (hmono h₂))

theorem eq_of_linked_nil {x y : Nat} (h : Linked [] x y) : x = y := by
  induction h with
  | rel _ _ hp => cases hp
  | refl => rfl
  | symm _ _ _ ih => exact ih.symm
  | trans _ _ _ _ _ ih₁ ih₂ => exact ih₁.trans ih₂

inductive Call
  | union (a b : Nat)
  | find (x : Nat)

namespace Call

def ids : Call → List Nat
  | union a b => [a, b]
  | find x => [x]

def apply (u : UnionFind) : Call → UnionFind
  | union a b => u.union a b
  | find x => (u.find x).2

def pair? : Call → Option (Nat × Nat)
  | union a b => some (a, b)
  | find _ => none

end Call

def run (u : UnionFind) (calls : List Call) : UnionFind := calls.foldl Call.apply u

def united (calls : List Call) : List (Nat × Nat) := calls.filterMap Call.pair?

theorem run_concat (u : UnionFind) (calls : List Call) (call : Call) :
    u.run (calls ++ [call]) = call.apply (u.run calls) := by
  rw [run, List.foldl_concat]
  rfl

theorem united_concat (calls : List Call) (call : Call) : united (calls ++ [call]) = united calls ++ call.pair?.toList := by
  rw [united, List.filterMap_append]
  cases h : call.pair? <;> simp [united, h]

/-- After any run, two elements have one representative exactly if its unions link them. -/
theorem run_represents (n : Nat) (calls : List Call) (hids : ∀ call ∈ calls, ∀ x ∈ call.ids, x < n) :
    ((ofSize n).run calls).size = n ∧
      ∃ rep, ((ofSize n).run calls).Represents rep ∧ ∀ x y, rep x = rep y ↔ Linked (united calls) x y := by
  induction calls using List.reverseRecOn with
  | nil =>
      refine ⟨by simp [run, ofSize, size], id, ofSize_represents n, fun x y => ⟨?_, eq_of_linked_nil⟩⟩
      rintro rfl
      exact .refl _
  | append_singleton calls call ih =>
      obtain ⟨hs, rep, hr, hl⟩ := ih fun c hc => hids c (by simp [hc])
      have hcall : ∀ x ∈ call.ids, x < ((ofSize n).run calls).size := fun x hx => (hids call (by simp) x hx).trans_eq hs.symm
      rw [run_concat, united_concat]
      cases call with
      | union a b =>
          obtain ⟨hs', rep', hr', hl'⟩ := union_represents hr (hcall a (by simp [Call.ids])) (hcall b (by simp [Call.ids]))
          refine ⟨hs'.trans hs, rep', hr', fun x y => ?_⟩
          rw [hl', Call.pair?, Option.toList_some, linked_concat, hl, hl, hl, hl, hl]
      | find x =>
          obtain ⟨hr', hs'⟩ := hr.find_snd (hcall x (by simp [Call.ids]))
          refine ⟨hs'.trans hs, rep, hr', fun x y => ?_⟩
          rw [hl, Call.pair?, Option.toList_none, List.append_nil]

theorem unions_represent (n : Nat) (pairs : List (Nat × Nat)) (hp : ∀ p ∈ pairs, p.1 < n ∧ p.2 < n) :
    (pairs.foldl (fun u p => u.union p.1 p.2) (ofSize n)).size = n ∧
      ∃ rep, (pairs.foldl (fun u p => u.union p.1 p.2) (ofSize n)).Represents rep ∧
        ∀ x y, rep x = rep y ↔ Linked pairs x y := by
  let calls := pairs.map fun p => Call.union p.1 p.2
  have hrun : (ofSize n).run calls = pairs.foldl (fun u p => u.union p.1 p.2) (ofSize n) := List.foldl_map
  have hunited : united calls = pairs := by
    rw [united, List.filterMap_map]
    exact List.filterMap_some
  have hids : ∀ call ∈ calls, ∀ x ∈ call.ids, x < n := by
    rintro _ hcall x hx
    obtain ⟨p, hmem, rfl⟩ := List.mem_map.mp hcall
    simp only [Call.ids, List.mem_cons, List.not_mem_nil, or_false] at hx
    rcases hx with rfl | rfl
    · exact (hp p hmem).1
    · exact (hp p hmem).2
  rw [← hrun]
  simpa only [hunited] using run_represents n calls hids

end Memoizer.UnionFind
