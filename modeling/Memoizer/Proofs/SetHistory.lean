import Memoizer.Proofs.Strict.Partition

namespace Memoizer.UnionFind

variable {u : UnionFind} {rep : Nat → Nat}

def ancestor (u : UnionFind) (x k : Nat) : Nat := (parentOf u.parent)^[k] x

theorem ancestor_succ (u : UnionFind) (x k : Nat) : u.ancestor x (k + 1) = u.ancestor (parentOf u.parent x) k :=
  Function.iterate_succ_apply _ k x

theorem ancestor_succ' (u : UnionFind) (x k : Nat) : u.ancestor x (k + 1) = parentOf u.parent (u.ancestor x k) :=
  Function.iterate_succ_apply' _ k x

theorem ancestor_of_root {x : Nat} (h : parentOf u.parent x = x) (k : Nat) : u.ancestor x k = x :=
  Function.iterate_fixed h k

theorem compress_keeps {r : Nat} (fuel : Nat) {parent : Array Nat} {x y : Nat} (h : parentOf parent y = r) :
    parentOf (compress r fuel parent x) y = r := by
  induction fuel generalizing parent x with
  | zero => exact h
  | succ fuel ih =>
      rw [compress]
      split
      · exact h
      · apply ih
        rw [parentOf_set]
        split
        · rfl
        · exact h

namespace Represents

theorem ancestor_lt (h : u.Represents rep) {x : Nat} (hx : x < u.size) (k : Nat) : u.ancestor x k < u.size := by
  induction k with
  | zero => exact hx
  | succ k ih =>
      rw [ancestor_succ']
      exact h.parent_lt _ ih

theorem rep_ancestor (h : u.Represents rep) {x : Nat} (hx : x < u.size) (k : Nat) : rep (u.ancestor x k) = rep x := by
  induction k with
  | zero => rfl
  | succ k ih => rw [ancestor_succ', h.rep_parent _ (h.ancestor_lt hx k), ih]

theorem rank_le_ancestor (h : u.Represents rep) {x : Nat} (hx : x < u.size) (k : Nat) :
    u.rankOf x ≤ u.rankOf (u.ancestor x k) := by
  induction k with
  | zero => exact le_rfl
  | succ k ih =>
      rw [ancestor_succ']
      by_cases hroot : parentOf u.parent (u.ancestor x k) = u.ancestor x k
      · rwa [hroot]
      · exact ih.trans (h.rank_lt _ (h.ancestor_lt hx k) hroot).le

theorem ancestor_shortcut (h : u.Represents rep) {x : Nat} (hx : x < u.size) (hroot : parentOf u.parent x ≠ x) (v k : Nat) :
    ancestor { u with parent := u.parent.setIfInBounds x v } (parentOf u.parent x) k =
      u.ancestor (parentOf u.parent x) k := by
  -- Further up than `x` nothing changes when `x` is pointed elsewhere.
  induction k with
  | zero => rfl
  | succ k ih =>
      rw [ancestor_succ', ancestor_succ', ih, parentOf_set, if_neg]
      rintro ⟨heq, -⟩
      have hlt := h.rank_lt x hx hroot
      have hle := h.rank_le_ancestor (h.parent_lt x hx) k
      rw [heq] at hle
      omega

/-- The rank grows on the way up, so the steps do not run out before the whole path points at the representative. -/
theorem parentOf_compress (h : u.Represents rep) (fuel : Nat) {x : Nat} (hx : x < u.size)
    (hfuel : u.size ≤ fuel + u.rankOf x) (k : Nat) :
    parentOf (compress (rep x) fuel u.parent x) (u.ancestor x k) = rep x := by
  induction fuel generalizing u x k with
  | zero =>
      have hlt := h.rank_lt_size hx
      omega
  | succ fuel ih =>
      rw [compress]
      split
      next heq =>
        have hroot : parentOf u.parent x = x := by
          have hrep := h.parent_rep x hx
          rwa [← heq] at hrep
        rw [ancestor_of_root hroot, hroot, ← heq]
      next hne =>
        have hroot := h.parent_ne hx (Ne.symm hne)
        cases k with
        | zero =>
            apply compress_keeps
            rw [parentOf_set, if_pos ⟨rfl, hx⟩]
        | succ k =>
            have hsize : (u.parent.setIfInBounds x (rep x)).size = u.size := Array.size_setIfInBounds
            have hp : parentOf u.parent x < (u.parent.setIfInBounds x (rep x)).size :=
              (h.parent_lt x hx).trans_eq hsize.symm
            have hrank := h.rank_lt x hx hroot
            have hup := ih (h.shortcut hx (Ne.symm hne)) hp (by rw [size, hsize]; simp only [rankOf] at *; omega) k
            rwa [h.ancestor_shortcut hx hroot, h.rep_parent x hx, ← ancestor_succ] at hup

theorem exists_ancestor (h : u.Represents rep) {x : Nat} (hx : x < u.size) : ∃ k, u.ancestor x k = rep x := by
  by_contra hnone
  rw [not_exists] at hnone
  -- A path that never comes to the representative would reach any rank.
  have hgrows : ∀ k, k ≤ u.rankOf (u.ancestor x k) := by
    intro k
    induction k with
    | zero => exact Nat.zero_le _
    | succ k ih =>
        have hlt := h.ancestor_lt hx k
        have hroot : parentOf u.parent (u.ancestor x k) ≠ u.ancestor x k := by
          apply h.parent_ne hlt
          rw [h.rep_ancestor hx]
          exact fun heq => hnone k heq.symm
        rw [ancestor_succ']
        exact ih.trans_lt (h.rank_lt _ hlt hroot)
  have hlt := h.rank_lt_size (h.ancestor_lt hx u.size)
  have hle := hgrows u.size
  omega

end Represents

namespace Call

def applyStrictly (steps : Nat) (u : UnionFind) : Call → Option UnionFind
  | union a b => Strict.union steps u a b
  | find x => (Strict.find steps u x).map Prod.snd

end Call

def runStrictly (steps : Nat) (u : UnionFind) (calls : List Call) : Option UnionFind :=
  calls.foldlM (Call.applyStrictly steps) u

theorem runStrictly_eq {n : Nat} (hn : n ≤ 4294967296) (calls : List Call) (hids : ∀ call ∈ calls, ∀ x ∈ call.ids, x < n) :
    runStrictly n (ofSize n) calls = some ((ofSize n).run calls) := by
  induction calls using List.reverseRecOn with
  | nil => rfl
  | append_singleton calls call ih =>
      have hbefore : ∀ c ∈ calls, ∀ x ∈ c.ids, x < n := fun c hc => hids c (by simp [hc])
      obtain ⟨hs, rep, hr, -⟩ := run_represents n calls hbefore
      have hcall : ∀ x ∈ call.ids, x < ((ofSize n).run calls).size :=
        fun x hx => (hids call (by simp) x hx).trans_eq hs.symm
      have hrun := ih hbefore
      rw [runStrictly] at hrun ⊢
      rw [List.foldlM_append, hrun, run_concat]
      cases call with
      | union a b =>
          have ha := hcall a (by simp [Call.ids])
          have hb := hcall b (by simp [Call.ids])
          simp [Call.applyStrictly, Call.apply, Strict.union_eq hr hs.le (hs.trans_le hn) ha hb]
      | find x =>
          have hx := hcall x (by simp [Call.ids])
          simp [Call.applyStrictly, Call.apply, Strict.find_eq hr hs.le hx]

/-- What holds of disjoint sets over the ids below `n` between two calls, when `pairs` have been united. -/
structure Settled (u : UnionFind) (n : Nat) (pairs : List (Nat × Nat)) : Prop where
  find_ends : ∀ x < n, Strict.find n u x = some (u.find x)
  find_lt : ∀ x < n, (u.find x).1 < n
  find_on_path : ∀ x < n, ∃ k, u.ancestor x k = (u.find x).1
  find_eq_iff : ∀ x < n, ∀ y < n, (u.find x).1 = (u.find y).1 ↔ Linked pairs x y
  find_keeps : ∀ x < n, ∀ y < n, ((u.find x).2.find y).1 = (u.find y).1
  path_flat : ∀ x < n, ∀ k, parentOf (u.find x).2.parent (u.ancestor x k) = (u.find x).1
  rank_lt_parent : ∀ x < n, parentOf u.parent x ≠ x → u.rankOf x < u.rankOf (parentOf u.parent x)
  pow_rank_le_members : ∀ r < n, parentOf u.parent r = r → 2 ^ u.rankOf r ≤ (members n (fun x => (u.find x).1) r).card
  rank_le : ∀ x < n, u.rankOf x ≤ 32

theorem Represents.settled (h : u.Represents rep) (hsmall : u.size ≤ 4294967296) {pairs : List (Nat × Nat)}
    (hl : ∀ x y, rep x = rep y ↔ Linked pairs x y) : u.Settled u.size pairs where
  find_ends _ hx := Strict.find_eq h le_rfl hx
  find_lt x hx := by
    rw [h.find_fst hx]
    exact h.rep_lt x hx
  find_on_path x hx := by
    rw [h.find_fst hx]
    exact h.exists_ancestor hx
  find_eq_iff x hx y hy := by rw [h.find_fst hx, h.find_fst hy, hl]
  find_keeps x hx y hy := by
    obtain ⟨h', hs⟩ := h.find_snd hx
    rw [h'.find_fst (hy.trans_eq hs.symm), h.find_fst hy]
  path_flat x hx k := by
    rw [h.find_fst hx, find, h.root_eq hx]
    exact h.parentOf_compress u.size hx (Nat.le_add_right _ _) k
  rank_lt_parent := h.rank_lt
  pow_rank_le_members r hr hroot := by
    have hsame : members u.size (fun x => (u.find x).1) r = members u.size rep r := by
      apply Finset.filter_congr
      intro x hx
      simp only [h.find_fst (Finset.mem_range.mp hx)]
    rw [hsame]
    exact h.pow_rank_le r hr (h.rep_root r hr hroot)
  rank_le _ hx := Strict.rank_le h hsmall hx

/-- No call of a run on ids below `n` leaves its arrays, its byte or its `n` steps, and whatever the calls were, the sets
are settled afterwards. The ids have to be fewer than four bytes can count. -/
theorem run_settled (n : Nat) (hn : n < 2 ^ 32) (calls : List Call) (hids : ∀ call ∈ calls, ∀ x ∈ call.ids, x < n) :
    runStrictly n (Strict.ofSize n) calls = some ((Strict.ofSize n).run calls) ∧
      ((Strict.ofSize n).run calls).Settled n (united calls) := by
  obtain ⟨hs, rep, hr, hl⟩ := run_represents n calls hids
  have hsettled := hr.settled (hs.trans_le hn.le) hl
  rw [hs] at hsettled
  rw [Strict.ofSize_eq hn]
  exact ⟨runStrictly_eq hn.le calls hids, hsettled⟩

def joinedTwice : List Call := [.union 0 1, .union 2 3, .find 3, .union 1 3, .find 3]

theorem run_joinedTwice :
    (∀ call ∈ joinedTwice, ∀ x ∈ call.ids, x < 6) ∧ ((Strict.ofSize 6).run joinedTwice).parent = #[0, 0, 0, 0, 4, 5] ∧
      ((Strict.ofSize 6).run joinedTwice).rank = #[2, 0, 1, 0, 0, 0] ∧
      ((Strict.ofSize 6).run joinedTwice).Settled 6 [(0, 1), (2, 3), (1, 3)] := by
  have hids : ∀ call ∈ joinedTwice, ∀ x ∈ call.ids, x < 6 := by decide
  exact ⟨hids, by decide, by decide, (run_settled 6 (by decide) joinedTwice hids).2⟩

theorem find_of_size_le {x : Nat} (h : u.size ≤ x) (steps : Nat) : Strict.find steps u x = none := by
  have hclimb : Strict.climb u.parent steps x = none := by
    cases steps with
    | zero => rfl
    | succ steps => rw [Strict.climb, Array.getElem?_eq_none h]; rfl
  rw [Strict.find, hclimb]
  rfl

theorem size_ofSize_two_pow : (Strict.ofSize (2 ^ 32)).size = 0 := by
  have hcast : 2 ^ 32 % 4294967296 = 0 := by decide
  rw [size, Strict.ofSize, hcast, Array.size_range]

/-- The count of `2 ^ 32` ids is zero in four bytes, so that there is no id to look up. -/
theorem find_fails_at_two_pow :
    (∀ call ∈ [Call.find 0], ∀ x ∈ call.ids, x < 2 ^ 32) ∧
      runStrictly (2 ^ 32) (Strict.ofSize (2 ^ 32)) [.find 0] = none := by
  refine ⟨by simp [Call.ids], ?_⟩
  have hfind := find_of_size_le (Nat.le_of_eq size_ofSize_two_pow) (2 ^ 32)
  rw [runStrictly, List.foldlM_cons, Call.applyStrictly, hfind]
  rfl

end Memoizer.UnionFind
