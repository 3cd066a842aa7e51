import Memoizer.Proofs.MergedSpans
import Memoizer.Proofs.Strict.Analysis

namespace Memoizer.Strict

section Sets

variable {u : UnionFind} {rep : Nat → Nat}

open UnionFind (parentOf)

theorem parent_getElem? {parent : Array Nat} {x : Nat} (hx : x < parent.size) :
    parent[x]? = some (parentOf parent x) := by
  simp [parentOf, Array.getD_eq_getD_getElem?, hx]

/-- The rank grows along the way up and stays below the number of elements. -/
theorem climb_eq (h : u.Represents rep) {steps x : Nat} (hx : x < u.size) (hsteps : u.size ≤ steps + u.rankOf x) :
    climb u.parent steps x = some (rep x) := by
  induction steps generalizing x with
  | zero => have := h.rank_lt_size hx; omega
  | succ steps ih =>
      rw [climb, parent_getElem? hx]
      by_cases hroot : parentOf u.parent x = x
      · simp [hroot, h.rep_root x hx hroot]
      · have hlt := h.rank_lt x hx hroot
        have hup := ih (h.parent_lt x hx) (by omega)
        simp only [Option.bind_eq_bind, Option.bind_some, if_neg hroot, hup, h.rep_parent x hx]

theorem compress_eq (h : u.Represents rep) {steps fuel x : Nat} (hx : x < u.size)
    (hsteps : u.size ≤ steps + u.rankOf x) (hfuel : u.size ≤ fuel + u.rankOf x) :
    compress (rep x) steps u.parent x = some (UnionFind.compress (rep x) fuel u.parent x) := by
  have hrank := h.rank_lt_size hx
  induction steps generalizing u x fuel with
  | zero => omega
  | succ steps ih =>
      cases fuel with
      | zero => omega
      | succ fuel =>
          rw [compress, UnionFind.compress]
          split
          next => rfl
          next hne =>
            have hsize : (u.parent.setIfInBounds x (rep x)).size = u.size := Array.size_setIfInBounds
            have hp : parentOf u.parent x < (u.parent.setIfInBounds x (rep x)).size :=
              (h.parent_lt x hx).trans_eq hsize.symm
            have hlt := h.rank_lt x hx (h.parent_ne hx (Ne.symm hne))
            have hnext := h.shortcut hx (Ne.symm hne)
            have hbound {n : Nat} (hn : u.size ≤ n + 1 + u.rankOf x) :
                (u.parent.setIfInBounds x (rep x)).size ≤ n + u.rankOf (parentOf u.parent x) := by omega
            have hrest := ih hnext hp (hbound hsteps) (hbound hfuel) (hnext.rank_lt_size hp)
            rw [h.rep_parent x hx] at hrest
            rw [parent_getElem? hx]
            exact hrest

variable {steps : Nat}

theorem find_eq (h : u.Represents rep) (hsteps : u.size ≤ steps) {x : Nat} (hx : x < u.size) :
    find steps u x = some (u.find x) := by
  have hclimb := climb_eq h hx (Nat.le_add_right_of_le hsteps)
  have hcompress := compress_eq h hx (Nat.le_add_right_of_le hsteps) (Nat.le_add_right u.size _)
  rw [← h.root_eq hx] at hclimb hcompress
  simp only [find, hclimb, hcompress, Option.bind_eq_bind, Option.bind_some]
  rfl

theorem findAll_eq (h : u.Represents rep) (hsteps : u.size ≤ steps) (xs : List Nat) (hxs : ∀ x ∈ xs, x < u.size) :
    findAll steps u xs = some (u.findAll xs) := by
  induction xs generalizing u with
  | nil => rfl
  | cons x xs ih =>
      have hx := hxs x (by simp)
      obtain ⟨hr, hs⟩ := h.find_snd hx
      have hrest := ih hr (hs.trans_le hsteps) fun y hy => (hxs y (by simp [hy])).trans_eq hs.symm
      simp only [findAll, find_eq h hsteps hx, hrest, Option.bind_eq_bind, Option.bind_some]
      rfl

theorem rank_getElem? (h : u.Represents rep) {x : Nat} (hx : x < u.size) : u.rank[x]? = some (u.rankOf x) := by
  have hlt : x < u.rank.size := h.rank_size ▸ hx
  simp [UnionFind.rankOf, Array.getD_eq_getD_getElem?, hlt]

/-- A class of rank `r` has at least `2 ^ r` members. -/
theorem rank_le (h : u.Represents rep) (hsmall : u.size ≤ 4294967296) {x : Nat} (hx : x < u.size) :
    u.rankOf x ≤ 32 := by
  have hpow : 2 ^ u.rankOf x ≤ 2 ^ 32 := (h.pow_rank_le_size hx).trans hsmall
  exact (Nat.pow_le_pow_iff_right (by decide)).mp hpow

theorem link_eq (h : u.Represents rep) (hsmall : u.size ≤ 4294967296) {a b : Nat} (ha : a < u.size) (hb : b < u.size) :
    link u a b = some (u.link a b) := by
  have hrank := rank_le h hsmall ha
  rw [link, UnionFind.link]
  split
  next => rfl
  next =>
    change _ = some (if u.rankOf a < u.rankOf b then _ else _)
    simp only [rank_getElem? h ha, rank_getElem? h hb, Option.bind_eq_bind, Option.bind_some]
    split
    next => rfl
    next =>
      change _ = some (UnionFind.mk _ (if u.rankOf a = u.rankOf b then _ else _))
      split
      next =>
        -- Both roots have this rank, and it is at most 32, so there is room in the byte.
        have hbyte : u.rankOf a + 1 < 256 := by omega
        simp only [raise, rank_getElem? h ha, Option.bind_eq_bind, Option.bind_some, if_pos hbyte]
        rfl
      next => rfl

theorem union_eq (h : u.Represents rep) (hsteps : u.size ≤ steps) (hsmall : u.size ≤ 4294967296) {a b : Nat}
    (ha : a < u.size) (hb : b < u.size) : union steps u a b = some (u.union a b) := by
  obtain ⟨h₁, hs₁⟩ := h.find_snd ha
  have hb₁ : b < (u.find a).2.size := hb.trans_eq hs₁.symm
  obtain ⟨h₂, hs₂⟩ := h₁.find_snd hb₁
  have hsize := hs₂.trans hs₁
  have ha₂ : (u.find a).1 < ((u.find a).2.find b).2.size := by
    rw [hsize, h.find_fst ha]
    exact h.rep_lt a ha
  have hb₂ : ((u.find a).2.find b).1 < ((u.find a).2.find b).2.size := by
    rw [hsize, h₁.find_fst hb₁]
    exact h.rep_lt b hb
  simp only [union, find_eq h hsteps ha, find_eq h₁ (hs₁.trans_le hsteps) hb₁, Option.bind_eq_bind, Option.bind_some]
  exact link_eq h₂ (hsize ▸ hsmall) ha₂ hb₂

end Sets

theorem ofSize_eq {n : Nat} (h : n < 4294967296) : ofSize n = UnionFind.ofSize n := by
  rw [ofSize, Nat.mod_eq_of_lt h]
  rfl

theorem groups_eq {facts : SideTable Facts} {steps : Nat} (hsteps : facts.length ≤ steps) (hsmall : facts.length < 4294967296)
    (hinterval : ∀ s, MemoInterval facts s → s.start < s.stop ∧ s.stop < facts.length) :
    groups steps facts = some (Memoizer.groups facts) ∧
      (Memoizer.groups facts).size = facts.length ∧ ∃ rep, (Memoizer.groups facts).Represents rep := by
  rw [groups, ofSize_eq hsmall]
  let inv (u : UnionFind) : Prop := u.size = facts.length ∧ ∃ rep, u.Represents rep
  have hstart : inv (UnionFind.ofSize facts.length) :=
    ⟨by simp [UnionFind.ofSize, UnionFind.size], _, UnionFind.ofSize_represents _⟩
  have hunion (u : UnionFind) (hu : inv u) {x m : Nat} (hs : MemoInterval facts ⟨x, m⟩) :
      union steps u x m = some (u.union x m) ∧ inv (u.union x m) := by
    obtain ⟨hsize, rep, hr⟩ := hu
    obtain ⟨hlt, hm⟩ := hinterval _ hs
    have hx : x < u.size := hsize ▸ Nat.lt_trans hlt hm
    have hm : m < u.size := hsize ▸ hm
    obtain ⟨hsize', rep', hr', _⟩ := UnionFind.union_represents hr hx hm
    exact ⟨union_eq hr (hsize ▸ hsteps) (hsize ▸ hsmall.le) hx hm, hsize'.trans hsize, rep', hr'⟩
  refine foldlM_eq_some inv (fun u hu p hp => ?_) hstart
  have hf : factsAt facts p.2 = p.1 := by
    exact Body.factsAt_of_getElem? (List.mem_zipIdx_iff_getElem?.mp hp)
  by_cases hmemo : p.1.memo = true
  · simp only [hmemo, if_true]
    exact foldlM_eq_some inv (fun u hu m hm => hunion u hu ⟨hf ▸ hmemo, hf ▸ hm⟩) hu
  · simp only [hmemo, Bool.false_eq_true, if_false]
    exact ⟨trivial, hu⟩

theorem mergedSpans_eq {facts : SideTable Facts} {steps : Nat} (hsteps : facts.length ≤ steps) (hsmall : facts.length < 4294967296)
    (hinterval : ∀ s, MemoInterval facts s → s.start < s.stop ∧ s.stop < facts.length) :
    mergedSpans steps facts = some (Memoizer.mergedSpans facts) := by
  obtain ⟨hgroups, hsize, rep, hr⟩ := groups_eq hsteps hsmall hinterval
  have hroots := findAll_eq hr (hsize.trans_le hsteps) (List.range facts.length) fun x hx => (List.mem_range.mp hx).trans_eq hsize.symm
  simp only [mergedSpans, hgroups, hroots, Option.bind_eq_bind, Option.bind_some]
  rfl

section Body

variable {b : Body} {facts : SideTable Facts}

theorem blockOf_eq (hf : facts.length = b.size) {span : Span} (hstop : span.stop < b.size) :
    blockOf b facts span = some (b.blockOf facts span) := by
  have hid : ∀ id ∈ span.ids, id < b.size := fun id hid => Span.lt_of_mem_ids hid hstop
  have hinfos : span.ids.mapM (facts[·]?) = some (span.ids.map (factsAt facts)) := by
    refine mapM_eq_some fun id hmem => Body.getElem?_eq_factsAt ?_
    exact hf ▸ hid id hmem
  have hinsts : span.ids.mapM (fun id => b.insts[id]?.map (id, ·)) =
      some (span.ids.filterMap fun id => b.insts[id]?.map (id, ·)) := by
    refine mapM_eq_some_filterMap fun id hmem => ?_
    have hlt : id < b.insts.length := hid id hmem
    simp [hlt]
  simp only [blockOf, hinsts, hinfos, Option.bind_eq_bind, Option.bind_some, Body.blockOf, List.flatMap_map]

theorem spanItem_eq (hf : facts.length = b.size) {span : Span} (hle : span.start ≤ span.stop)
    (hstop : span.stop < b.size) :
    ∃ item, spanItem b facts span = some item ∧ b.spanItem facts span = .ok item := by
  obtain ⟨op, ho⟩ := Body.exists_op? (Nat.lt_of_le_of_lt hle hstop)
  have hall := Span.all_ids_lt hstop
  simp only [spanItem, Body.spanItem, Body.isDeclare, ho, hall, blockOf_eq hf hstop, Option.bind_eq_bind,
    Option.bind_some, Option.any_some, if_true]
  split
  · exact ⟨_, rfl, rfl⟩
  · exact ⟨_, rfl, rfl⟩

theorem tile_eq (hf : facts.length = b.size) (next : InstId) (spans : List Span)
    (hspans : ∀ s ∈ spans, s.start ≤ s.stop ∧ s.stop < b.size) :
    ∃ items, tile b facts next spans = some items ∧ b.tile facts next spans = .ok items := by
  induction spans generalizing next with
  | nil => exact ⟨_, rfl, rfl⟩
  | cons span spans ih =>
      obtain ⟨hle, hstop⟩ := hspans span (by simp)
      obtain ⟨item, hitem, hitem'⟩ := spanItem_eq hf hle hstop
      obtain ⟨items, hitems, hitems'⟩ := ih (span.stop + 1) fun s hs => hspans s (by simp [hs])
      rw [tile, Body.tile]
      split
      · refine ⟨Body.passes next (min span.start b.size) ++ item :: items, ?_, ?_⟩
        · simp only [hitem, hitems, Option.bind_eq_bind, Option.bind_some]
        · rw [hitem', hitems']
          rfl
      · exact ⟨_, rfl, rfl⟩

theorem partition_eq (hb : b.Backward) {steps : Nat} (hsteps : b.size ≤ steps) (hsmall : b.size < 4294967296)
    (c : Config) : ∃ items, partition b steps (b.analyze c) = some items ∧ b.partition (b.analyze c) = .ok items := by
  have hlen := Body.length_analyze b c
  have hspans := mergedSpans_eq (hlen.trans_le hsteps) (hlen ▸ hsmall) (Body.memoInterval_bounds hb c)
  simp only [partition, Body.partition, Body.partitionSpans, hspans, Option.bind_eq_bind, Option.bind_some]
  refine tile_eq hlen 0 _ fun s hs => ?_
  obtain ⟨hlt, hstop⟩ := Body.mergedSpans_bounds hb c hs
  exact ⟨Nat.le_of_lt hlt, hstop⟩

end Body

end Memoizer.Strict
