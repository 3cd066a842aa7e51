import Mathlib
import Memoizer.Proofs.LinearUse
import Memoizer.Proofs.SourceUnits

namespace Memoizer

abbrev Visiting := StateM (List InstId)

/-- The run gives the value and has noted the ids, behind those that were noted before. -/
def Visiting.Yields {α : Type} (m : Visiting α) (a : α) (ids : List InstId) : Prop :=
  ∀ seen, m.run seen = (a, seen ++ ids)

namespace Visiting

variable {α β : Type}

theorem yields_pure (a : α) : Yields (pure a) a [] := by
  intro seen
  rw [List.append_nil]
  rfl

theorem Yields.bind {m : Visiting α} {n : α → Visiting β} {a : α} {c : β} {ids ids' : List InstId} (hm : Yields m a ids)
    (hn : Yields (n a) c ids') : Yields (m >>= n) c (ids ++ ids') := by
  intro seen
  have hfirst := hm seen
  have hsecond := hn (seen ++ ids)
  rw [List.append_assoc] at hsecond
  rw [StateT.run_bind, hfirst]
  exact hsecond

theorem Yields.map {m : Visiting α} {a : α} {ids : List InstId} (hm : Yields m a ids) (g : α → β) :
    Yields (do
      let x ← m
      pure (g x)) (g a) ids := by
  have h := hm.bind (n := fun x => pure (g x)) (yields_pure (g a))
  rwa [List.append_nil] at h

theorem yields_mapM {n : α → Visiting β} {g : α → β} {ids : α → List InstId} {l : List α}
    (h : ∀ x ∈ l, Yields (n x) (g x) (ids x)) : Yields (l.mapM n) (l.map g) (l.flatMap ids) := by
  induction l with
  | nil => exact yields_pure []
  | cons x l ih =>
      obtain ⟨hx, hl⟩ := List.forall_mem_cons.mp h
      rw [List.mapM_cons]
      exact hx.bind ((ih hl).map (g x :: ·))

end Visiting

open Visiting

def Operand.rebuildVisiting (value : InstId → Visiting Expr) : Operand → Visiting Expr
  | .literal lit => pure (.literal lit)
  | .value id => value id

def Op.rebuildVisiting (value : InstId → Visiting Expr) : Op → Visiting Expr
  | .param name => pure (.ident name)
  | .declare _ pattern name _ => pure (pattern.reference name)
  | .constant c => pure c.rebuild
  | .read base property => do
    let object ← value base
    pure (property.accessOf object)
  | .object props => do
    let members ← props.mapM fun p => do
      let e ← p.2.rebuildVisiting value
      pure (ObjectMember.property (.ident p.1) e false)
    pure (.object members)
  | .call receiver (some property) args => do
    let object ← value receiver
    let args ← args.mapM (Operand.rebuildVisiting value)
    pure (.call (property.accessOf object) args)
  | .call receiver none args => do
    let callee ← value receiver
    let args ← args.mapM (Operand.rebuildVisiting value)
    pure (.call callee args)
  | .ret (some id) => value id
  | .ret none => pure .undefined

namespace Body

def rebuildVisiting (b : Body) (id : InstId) : Visiting Expr := do
  modify (· ++ [id])
  match b.op? id with
  | some op => op.rebuildVisiting fun k => if k < id then b.rebuildVisiting k else pure .undefined
  | none => pure .undefined
termination_by id

def rebuildStmtVisiting (b : Body) (id : InstId) (isRoot : Bool) : Visiting (Option Stmt) :=
  match b.op? id with
  | some (.declare kind pattern _ value) => do
    let init ← b.rebuildVisiting value
    pure (some (.decl kind [.mk pattern (some init)] (b.placeAt id)))
  | some (.ret (some value)) => do
    let result ← b.rebuildVisiting value
    pure (some (.ret (some result) (b.placeAt id)))
  | some (.ret none) => pure (some (.ret none (b.placeAt id)))
  | some (.call ..) =>
    if isRoot then do
      let call ← b.rebuildVisiting id
      pure (some (.expr call (b.placeAt id)))
    else pure none
  | _ => pure none

def reconstructVisiting (b : Body) : Visiting (List Stmt) := do
  let stmts ← (List.range b.size).mapM fun id => b.rebuildStmtVisiting id (!b.isConsumed id)
  pure stmts.reduceOption

end Body

/-- The operands whose expressions become part of the expression of the operation. -/
def Op.inlined : Op → List InstId
  | .declare .. => []
  | op => op.operands

theorem Operand.yields_rebuildVisiting {visiting : InstId → Visiting Expr} {value : InstId → Expr}
    {ids : InstId → List InstId} {operand : Operand} (h : ∀ k ∈ operand.id?, Yields (visiting k) (value k) (ids k)) :
    Yields (operand.rebuildVisiting visiting) (operand.rebuildWith value) (operand.id?.toList.flatMap ids) := by
  cases operand with
  | literal lit => exact yields_pure _
  | value id =>
      rw [id?, Option.toList_some, List.flatMap_singleton]
      exact h id rfl

theorem Operand.yields_rebuildAll {visiting : InstId → Visiting Expr} {value : InstId → Expr}
    {ids : InstId → List InstId} {args : List Operand}
    (h : ∀ k ∈ args.filterMap id?, Yields (visiting k) (value k) (ids k)) :
    Yields (args.mapM (rebuildVisiting visiting)) (args.map (rebuildWith value)) ((args.filterMap id?).flatMap ids) := by
  rw [List.filterMap_eq_flatMap_toList, List.flatMap_assoc]
  apply yields_mapM
  intro operand hmem
  apply Operand.yields_rebuildVisiting
  intro k hk
  exact h k (List.mem_filterMap.mpr ⟨operand, hmem, hk⟩)

theorem Op.yields_rebuildVisiting {visiting : InstId → Visiting Expr} {value : InstId → Expr}
    {ids : InstId → List InstId} {op : Op} (h : ∀ k ∈ op.inlined, Yields (visiting k) (value k) (ids k)) :
    Yields (op.rebuildVisiting visiting) (op.rebuildWith value) (op.inlined.flatMap ids) := by
  cases op with
  | param | constant | declare => exact yields_pure _
  | read base property =>
      have hbase := h base (List.mem_singleton_self base)
      have hids : (Op.read base property).inlined.flatMap ids = ids base := List.flatMap_singleton ids base
      rw [hids]
      exact hbase.map fun object => property.accessOf object
  | object props =>
      have hids : (Op.object props).inlined.flatMap ids = props.flatMap fun p => p.2.id?.toList.flatMap ids := by
        change (props.filterMap (·.2.id?)).flatMap ids = _
        rw [List.filterMap_eq_flatMap_toList, List.flatMap_assoc]
      rw [hids]
      refine (yields_mapM fun p hp => ?_).map Expr.object
      refine (Operand.yields_rebuildVisiting fun k hk => ?_).map fun e => ObjectMember.property (.ident p.1) e false
      exact h k (List.mem_filterMap.mpr ⟨p, hp, hk⟩)
  | call receiver property args =>
      obtain ⟨hreceiver, hargs⟩ := List.forall_mem_cons.mp h
      have hall := Operand.yields_rebuildAll hargs
      cases property with
      | none => exact hreceiver.bind (hall.map (Expr.call (value receiver)))
      | some property => exact hreceiver.bind (hall.map (Expr.call (property.accessOf (value receiver))))
  | ret result =>
      cases result with
      | none => exact yields_pure _
      | some id =>
          have hids : (Op.ret (some id)).inlined.flatMap ids = ids id := List.flatMap_singleton ids id
          rw [hids]
          exact h id (List.mem_singleton_self id)

namespace Body

variable {b : Body} {id j k : InstId} {op : Op}

def inlinedAt (b : Body) (id : InstId) : List InstId :=
  match b.op? id with
  | some op => op.inlined
  | none => []

/-- The instructions that are rebuilt along with one, itself first. -/
def visited (b : Body) (id : InstId) : List InstId :=
  id :: (b.inlinedAt id).flatMap fun k => if k < id then b.visited k else []
termination_by id

theorem inlinedAt_eq (ho : b.op? id = some op) : b.inlinedAt id = op.inlined := by rw [inlinedAt, ho]

theorem inlined_sublist (op : Op) : List.Sublist op.inlined op.operands := by
  cases op with
  | declare => exact List.nil_sublist _
  | param | constant | read | object | call | ret => exact List.Sublist.refl _

theorem inlinedAt_sublist (b : Body) (id : InstId) : List.Sublist (b.inlinedAt id) (b.operandsAt id) := by
  rw [inlinedAt, operandsAt]
  cases b.op? id with
  | none => exact List.Sublist.refl _
  | some op => exact inlined_sublist op

theorem reads_of_mem_inlinedAt (h : k ∈ b.inlinedAt j) : b.Reads j k :=
  mem_operandsAt_iff.mp ((b.inlinedAt_sublist j).subset h)

theorem not_binds_of_mem_inlinedAt (h : k ∈ b.inlinedAt j) : ¬ b.Binds j := by
  -- What is read by its name has its operands left alone.
  rintro ⟨op, ho, hnames⟩
  rw [inlinedAt_eq ho] at h
  cases op with
  | param | declare => cases h
  | constant | read | object | call | ret => exact hnames rfl

theorem lt_of_mem_inlinedAt (hb : b.Backward) (h : k ∈ b.inlinedAt j) : k < j := by
  obtain ⟨op, ho, hk⟩ := reads_of_mem_inlinedAt h
  exact hb j op ho k hk

theorem visited_eq (hb : b.Backward) (id : InstId) : b.visited id = id :: (b.inlinedAt id).flatMap b.visited := by
  rw [visited, List.flatMap_def, List.flatMap_def]
  congr 2
  apply List.map_congr_left
  intro k hk
  exact if_pos (lt_of_mem_inlinedAt hb hk)

theorem yields_rebuildVisiting (b : Body) (id : InstId) :
    Yields (b.rebuildVisiting id) (b.rebuildExpr id) (b.visited id) := by
  induction id using Nat.strongRecOn with
  | ind id ih =>
      have hnote : Yields (modify (· ++ [id])) PUnit.unit [id] := fun seen => rfl
      rw [rebuildVisiting, rebuildExpr, visited, inlinedAt, ← List.singleton_append]
      apply hnote.bind
      cases b.op? id with
      | none => exact yields_pure _
      | some op =>
          apply Op.yields_rebuildVisiting
          intro k hk
          by_cases hlt : k < id
          · rw [if_pos hlt, if_pos hlt, if_pos hlt]
            exact ih k hlt
          · rw [if_neg hlt, if_neg hlt, if_neg hlt]
            exact yields_pure _

def rootsAt (b : Body) (id : InstId) : List InstId :=
  match b.op? id with
  | some (.declare _ _ _ value) => [value]
  | some (.ret value) => value.toList
  | some (.call ..) => if b.isConsumed id then [] else [id]
  | _ => []

def roots (b : Body) : List InstId := (List.range b.size).flatMap b.rootsAt

theorem yields_rebuildStmtVisiting (b : Body) (id : InstId) :
    Yields (b.rebuildStmtVisiting id (!b.isConsumed id)) (b.rebuildStmt? id (!b.isConsumed id))
      ((b.rootsAt id).flatMap b.visited) := by
  rw [rebuildStmtVisiting, rebuildStmt?, rootsAt]
  cases b.op? id with
  | none => exact yields_pure _
  | some op =>
      cases op with
      | param | constant | read | object => exact yields_pure _
      | declare kind pattern name value =>
          simp only [List.flatMap_singleton]
          exact (b.yields_rebuildVisiting value).map fun init =>
            some (Stmt.decl kind [.mk pattern (some init)] (b.placeAt id))
      | ret value =>
          cases value with
          | none => exact yields_pure _
          | some value =>
              simp only [Option.toList_some, List.flatMap_singleton]
              exact (b.yields_rebuildVisiting value).map fun result => some (Stmt.ret (some result) (b.placeAt id))
      | call receiver property args =>
          cases b.isConsumed id with
          | true => exact yields_pure _
          | false =>
              simp only [Bool.not_false, if_true, Bool.false_eq_true, if_false, List.flatMap_singleton]
              exact (b.yields_rebuildVisiting id).map fun call => some (Stmt.expr call (b.placeAt id))

theorem yields_reconstructVisiting (b : Body) :
    Yields b.reconstructVisiting b.reconstruct (b.roots.flatMap b.visited) := by
  have hstmts : b.reconstruct = ((List.range b.size).map fun id => b.rebuildStmt? id (!b.isConsumed id)).reduceOption := by
    rw [reconstruct, List.reduceOption, List.filterMap_map]
    rfl
  rw [hstmts, roots, List.flatMap_assoc]
  exact (yields_mapM fun id _ => b.yields_rebuildStmtVisiting id).map List.reduceOption

theorem flatMap_visited_perm {ids : List InstId}
    (h : ∀ id ∈ ids, List.Perm (b.visited id) (id :: (b.visited id).flatMap b.inlinedAt)) :
    List.Perm (ids.flatMap b.visited) (ids ++ (ids.flatMap b.visited).flatMap b.inlinedAt) := by
  have hparts := (List.flatMap_append_perm ids (fun id => [id]) fun id => (b.visited id).flatMap b.inlinedAt).symm
  rw [List.flatMap_singleton'] at hparts
  rw [List.flatMap_assoc]
  exact (List.Perm.flatMap_left ids h).trans hparts

/-- All visits are there for the root or for an operand of what is visited. -/
theorem visited_perm (hb : b.Backward) (id : InstId) :
    List.Perm (b.visited id) (id :: (b.visited id).flatMap b.inlinedAt) := by
  induction id using Nat.strongRecOn with
  | ind id ih =>
      have hrest := flatMap_visited_perm fun k hk => ih k (lt_of_mem_inlinedAt hb hk)
      rw [visited_eq hb, List.flatMap_cons]
      exact hrest.cons id

end Body

theorem count_flatMap_of_unique {g : InstId → List InstId} {k j₀ : InstId} {ids : List InstId}
    (h : ∀ j ∈ ids, k ∈ g j → j = j₀) : (ids.flatMap g).count k = ids.count j₀ * (g j₀).count k := by
  induction ids with
  | nil => rw [List.flatMap_nil, List.count_nil, List.count_nil, Nat.zero_mul]
  | cons j ids ih =>
      obtain ⟨hj, hids⟩ := List.forall_mem_cons.mp h
      rw [List.flatMap_cons, List.count_append, ih hids, List.count_cons]
      by_cases heq : j = j₀
      · subst heq
        rw [if_pos (beq_self_eq_true j)]
        ring
      · rw [if_neg (by simpa using heq), List.count_eq_zero_of_not_mem fun hk => heq (hj hk)]
        ring

namespace Body

variable {b : Body} {id j k : InstId} {ids : List InstId}

/-- Nothing without a name is visited twice if the roots are apart and no visit leads back to one. -/
theorem Linear.count_visited_le (h : b.Linear 0 b.size []) (hb : b.Backward)
    (hroots : ∀ k, ¬ b.Binds k → ids.count k ≤ 1)
    (hback : ∀ k ∈ ids, ¬ b.Binds k → k ∉ (ids.flatMap b.visited).flatMap b.inlinedAt) (hk : ¬ b.Binds k) :
    (ids.flatMap b.visited).count k ≤ 1 := by
  -- The reader of `k` stands behind it, so the induction goes from the end of the body to its start.
  induction hn : b.size - k using Nat.strongRecOn generalizing k with
  | ind n ih =>
      rw [(flatMap_visited_perm fun id _ => visited_perm hb id).count_eq, List.count_append]
      by_cases hmem : k ∈ (ids.flatMap b.visited).flatMap b.inlinedAt
      · obtain ⟨j, hj, hkj⟩ := List.mem_flatMap.mp hmem
        have hnot : k ∉ ids := fun hroot => hback k hroot hk hmem
        have hunique : ∀ j' ∈ ids.flatMap b.visited, k ∈ b.inlinedAt j' → j' = j := fun j' _ hkj' =>
          h.reads_unique hk (reads_of_mem_inlinedAt hkj') (reads_of_mem_inlinedAt hkj)
        have hlt : k < j := lt_of_mem_inlinedAt hb hkj
        have hsize : j < b.size := (reads_of_mem_inlinedAt hkj).lt_size
        have hnearer : b.size - j < n := hn ▸ Nat.sub_lt_sub_left (Nat.lt_trans hlt hsize) hlt
        have hvisits := ih (b.size - j) hnearer (not_binds_of_mem_inlinedAt hkj) rfl
        have hslots : (b.inlinedAt j).count k ≤ 1 :=
          Nat.le_trans ((b.inlinedAt_sublist j).count_le k) (h.count_operandsAt_le hk j)
        rw [List.count_eq_zero_of_not_mem hnot, count_flatMap_of_unique hunique]
        exact Nat.le_trans (Nat.le_of_eq (Nat.zero_add _)) (Nat.mul_le_mul hvisits hslots)
      · rw [List.count_eq_zero_of_not_mem hmem]
        exact hroots k hk

theorem le_of_mem_visited (hb : b.Backward) (h : j ∈ b.visited id) : j ≤ id := by
  induction id using Nat.strongRecOn with
  | ind id ih =>
      rw [visited_eq hb, List.mem_cons, List.mem_flatMap] at h
      obtain rfl | ⟨k, hk, hj⟩ := h
      · exact Nat.le_refl j
      · have hlt : k < id := lt_of_mem_inlinedAt hb hk
        exact Nat.le_trans (ih k hlt hj) (Nat.le_of_lt hlt)

theorem Linear.count_visited_rebuild_le (h : b.Linear 0 b.size []) (hb : b.Backward) (id : InstId)
    (hk : ¬ b.Binds k) : (b.visited id).count k ≤ 1 := by
  rw [← List.flatMap_singleton b.visited id]
  refine h.count_visited_le hb (fun k _ => ?_) (fun k hk' _ hback => ?_) hk
  · exact List.nodup_iff_count_le_one.mp (List.nodup_singleton id) k
  · obtain rfl := List.mem_singleton.mp hk'
    obtain ⟨j, hj, hkj⟩ := List.mem_flatMap.mp hback
    rw [List.flatMap_singleton] at hj
    exact absurd (lt_of_mem_inlinedAt hb hkj) (Nat.not_lt.mpr (le_of_mem_visited hb hj))

theorem mem_rootsAt (h : k ∈ b.rootsAt id) :
    b.Reads id k ∧ b.isValueAt id = false ∨ k = id ∧ b.isConsumed k = false ∧ b.isValueAt k = true := by
  rw [rootsAt] at h
  cases ho : b.op? id with
  | none => simp [ho] at h
  | some op =>
      rw [ho] at h
      cases op with
      | param | constant | read | object => cases h
      | declare | ret => exact .inl ⟨⟨_, ho, h⟩, by rw [isValueAt, ho]; rfl⟩
      | call receiver property args =>
          cases hused : b.isConsumed id with
          | true => simp [hused] at h
          | false =>
              obtain rfl : k = id := by simpa [hused] using h
              exact .inr ⟨rfl, hused, by rw [isValueAt, ho]; rfl⟩

theorem count_rootsAt_le (b : Body) (id k : InstId) : (b.rootsAt id).count k ≤ 1 := by
  refine Nat.le_trans List.count_le_length ?_
  rw [rootsAt]
  split
  · exact Nat.le_refl 1
  · exact Option.length_toList_le
  · split <;> simp
  · exact Nat.zero_le 1

namespace Linear

variable (h : b.Linear 0 b.size [])

include h

theorem rootsAt_unique {j' : InstId} (hk : ¬ b.Binds k) (hj : k ∈ b.rootsAt j) (hj' : k ∈ b.rootsAt j') : j = j' := by
  rcases mem_rootsAt hj with ⟨hreads, _⟩ | ⟨rfl, hfree, _⟩ <;> rcases mem_rootsAt hj' with ⟨hreads', _⟩ | ⟨rfl, hfree', _⟩
  · exact h.reads_unique hk hreads hreads'
  · exact absurd (isConsumed_iff.mpr ⟨j, hreads⟩) (Bool.eq_false_iff.mp hfree')
  · exact absurd (isConsumed_iff.mpr ⟨j', hreads'⟩) (Bool.eq_false_iff.mp hfree)
  · rfl

theorem count_roots_le (hk : ¬ b.Binds k) : b.roots.count k ≤ 1 := by
  by_cases hmem : k ∈ b.roots
  · obtain ⟨j, _, hj⟩ := List.mem_flatMap.mp hmem
    have hunique : ∀ j' ∈ List.range b.size, k ∈ b.rootsAt j' → j' = j := fun j' _ hj' => h.rootsAt_unique hk hj' hj
    rw [roots, count_flatMap_of_unique hunique]
    exact Nat.mul_le_mul (List.nodup_iff_count_le_one.mp List.nodup_range j) (b.count_rootsAt_le j k)
  · rw [List.count_eq_zero_of_not_mem hmem]
    exact Nat.zero_le 1

theorem isValueAt_of_mem_roots (hk : ¬ b.Binds k) (hmem : k ∈ b.roots) : b.isValueAt k = true := by
  obtain ⟨j, _, hj⟩ := List.mem_flatMap.mp hmem
  rcases mem_rootsAt hj with ⟨hreads, _⟩ | ⟨_, _, hvalue⟩
  · exact h.isValueAt_of_reads hk hreads
  · exact hvalue

theorem isValueAt_of_mem_visited (hb : b.Backward) (hk : ¬ b.Binds k) (hmem : k ∈ b.roots.flatMap b.visited) :
    b.isValueAt k = true := by
  rw [(flatMap_visited_perm fun id _ => visited_perm hb id).mem_iff, List.mem_append] at hmem
  rcases hmem with hroot | hinlined
  · exact h.isValueAt_of_mem_roots hk hroot
  · obtain ⟨j, _, hj⟩ := List.mem_flatMap.mp hinlined
    exact h.isValueAt_of_reads hk (reads_of_mem_inlinedAt hj)

theorem not_inlined_of_mem_roots (hb : b.Backward) (hk : ¬ b.Binds k) (hmem : k ∈ b.roots) :
    k ∉ (b.roots.flatMap b.visited).flatMap b.inlinedAt := by
  intro hinlined
  obtain ⟨j, hj, hkj⟩ := List.mem_flatMap.mp hinlined
  obtain ⟨i, _, hi⟩ := List.mem_flatMap.mp hmem
  have hreads := reads_of_mem_inlinedAt hkj
  rcases mem_rootsAt hi with ⟨hreads', hstmt⟩ | ⟨_, hfree, _⟩
  · -- The one reader would be a declaration or a return, and no expression is rebuilt from these.
    obtain rfl : j = i := h.reads_unique hk hreads hreads'
    have hvalue := h.isValueAt_of_mem_visited hb (not_binds_of_mem_inlinedAt hkj) hj
    rw [hstmt] at hvalue
    cases hvalue
  · exact absurd (isConsumed_iff.mpr ⟨j, hreads⟩) (Bool.eq_false_iff.mp hfree)

theorem count_visited_reconstruct_le (hb : b.Backward) (hk : ¬ b.Binds k) : (b.roots.flatMap b.visited).count k ≤ 1 :=
  h.count_visited_le hb (fun _ hk => h.count_roots_le hk) (fun _ hroot hk => h.not_inlined_of_mem_roots hb hk hroot) hk

theorem length_mutators_le {c : Config} (hmemo : (factsAt (b.analyze c) id).memo = true) :
    (factsAt (b.analyze c) id).mutators.length ≤ 1 := by
  have hascending := mutators_ascending b c id
  have hreads : ∀ m ∈ (factsAt (b.analyze c) id).mutators, b.Reads m id := by
    intro m hm
    obtain ⟨_, call, hcall, _, hoperand⟩ := (mem_mutators_iff b c id m).mp hm
    exact ⟨call, hcall, hoperand⟩
  match hm : (factsAt (b.analyze c) id).mutators with
  | [] => exact Nat.zero_le 1
  | [_] => exact Nat.le_refl 1
  | m :: m' :: rest =>
      rw [hm] at hascending hreads
      have hlt : m < m' := List.rel_of_pairwise_cons hascending (List.mem_cons_self ..)
      have heq : m = m' := h.reads_unique (not_binds_of_memo hmemo) (hreads m (by simp)) (hreads m' (by simp))
      exact absurd heq (Nat.ne_of_lt hlt)

end Linear

def stmtsBefore (b : Body) (n : InstId) : List Stmt :=
  (List.range n).filterMap fun id => b.rebuildStmt? id (!b.isConsumed id)

theorem reconstruct_eq_append (h : id < b.size) :
    b.reconstruct = b.stmtsBefore id ++ (b.rebuildStmt? id (!b.isConsumed id)).toList ++ b.stmtsFrom (id + 1) := by
  have hrange := range'_append_range' (Nat.zero_le id) (Nat.le_of_lt h)
  rw [Nat.sub_zero, Nat.sub_zero, ← List.range_eq_range', ← List.range_eq_range'] at hrange
  rw [List.append_assoc, ← stmtsFrom_eq h, reconstruct, stmtsBefore, stmtsFrom, ← List.filterMap_append, hrange]
  rfl

end Body

def Op.isBinding : Op → Bool
  | .param _ => true
  | .declare .. => true
  | _ => false

theorem Body.not_binds_of_isBinding {b : Body} {id : InstId} {op : Op} (ho : b.op? id = some op)
    (h : op.isBinding = false) : ¬ b.Binds id := by
  rintro ⟨op', ho', hnames⟩
  obtain rfl := Option.some.inj (ho.symm.trans ho')
  cases op with
  | param | declare => cases h
  | constant | read | object | call | ret => exact hnames rfl

theorem Body.Linear.call_cases {b : Body} (h : b.Linear 0 b.size []) {id : InstId} {op : Op} (ho : b.op? id = some op)
    (hcall : op.isCall = true) :
    (b.isConsumed id = false ∧
      b.reconstruct = b.stmtsBefore id ++ .expr (b.rebuildExpr id) (b.placeAt id) :: b.stmtsFrom (id + 1)) ∨
    (b.rebuildStmt? id (!b.isConsumed id) = none ∧ ∃! j, b.Reads j id) := by
  cases op with
  | param | constant | declare | read | object | ret => cases hcall
  | call receiver property args =>
      cases hused : b.isConsumed id with
      | false =>
          have hstmt : b.rebuildStmt? id (!b.isConsumed id) = some (.expr (b.rebuildExpr id) (b.placeAt id)) := by
            rw [rebuildStmt?, ho, hused]
            rfl
          refine .inl ⟨rfl, ?_⟩
          rw [reconstruct_eq_append (lt_size_of_op? ho), hstmt, Option.toList_some, List.append_assoc,
            List.singleton_append]
      | true =>
          obtain ⟨j, hj⟩ := isConsumed_iff.mp hused
          refine .inr ⟨hused ▸ rebuildStmt?_of_isConsumed ho rfl hused, j, hj, fun j' hj' => ?_⟩
          exact h.reads_unique (not_binds_of_isBinding ho rfl) hj' hj

/-- What has no name is used once at most: in the operands, as what a call may change, as what a call is part of, and in
the expressions and statements that are rebuilt. -/
theorem Function.lower_uses_once (f : Function) (log log' : Log) (body : Body) (h : f.lower log = .ok body log') :
    (∀ id op, body.op? id = some op → op.isBinding = false →
      (body.insts.flatMap (·.op.operands)).count id ≤ 1) ∧
    (∀ c id, (factsAt (body.analyze c) id).memo = true → (factsAt (body.analyze c) id).mutators.length ≤ 1) ∧
    (∀ id op, body.op? id = some op → op.isCall = true →
      (body.isConsumed id = false ∧ body.reconstruct =
        body.stmtsBefore id ++ .expr (body.rebuildExpr id) (body.placeAt id) :: body.stmtsFrom (id + 1)) ∨
      (body.rebuildStmt? id (!body.isConsumed id) = none ∧ ∃! j, body.Reads j id)) ∧
    (∀ id, ∃ visits, (body.rebuildVisiting id).run [] = (body.rebuildExpr id, visits) ∧
      ∀ k op, body.op? k = some op → op.isBinding = false → visits.count k ≤ 1) ∧
    ∃ visits, body.reconstructVisiting.run [] = (body.reconstruct, visits) ∧
      ∀ k op, body.op? k = some op → op.isBinding = false → visits.count k ≤ 1 := by
  have hb : body.Backward := (lower_stages h).1 ▸ f.emitted_backward log
  have hlinear := emitted_linear h
  refine ⟨fun id op ho hop => ?_, fun c id => hlinear.length_mutators_le, fun id op => hlinear.call_cases,
    fun id => ⟨_, body.yields_rebuildVisiting id [], fun k op ho hop => ?_⟩,
    _, body.yields_reconstructVisiting [], fun k op ho hop => ?_⟩
  · rw [← body.slots_eq_flatMap]
    exact hlinear.count_slots_le (Body.not_binds_of_isBinding ho hop)
  · exact hlinear.count_visited_rebuild_le hb id (Body.not_binds_of_isBinding ho hop)
  · exact hlinear.count_visited_reconstruct_le hb (Body.not_binds_of_isBinding ho hop)

theorem uses_of_mappedAndLogged : ∃ body log', mappedAndLogged.lower {} = .ok body log' ∧
    (body.insts.flatMap (·.op.operands)).count 0 = 3 ∧ (body.insts.flatMap (·.op.operands)).count 7 ≤ 1 ∧
    (factsAt (body.analyze {}) 7).mutators = [8] ∧ (factsAt (body.analyze {}) 7).mutators.length ≤ 1 ∧
    body.reconstruct = body.stmtsBefore 8 ++ .expr (body.rebuildExpr 8) (body.placeAt 8) :: body.stmtsFrom 9 ∧
    (∃! j, body.Reads j 2) ∧
    ∃ visits, body.reconstructVisiting.run [] = (body.reconstruct, visits) ∧ visits.count 0 = 3 ∧ visits.count 7 ≤ 1 := by
  have hlower : mappedAndLogged.lower {} =
      .ok (mappedAndLogged.emitted {}) ⟨[⟨.info, "lowered `F`: 9 instructions"⟩]⟩ := by cbv
  have hobject : (mappedAndLogged.emitted {}).op? 7 = some (.object [("v", .value 0)]) := by cbv
  have hlog : (mappedAndLogged.emitted {}).op? 8 = some (.call 6 none [.value 7]) := by cbv
  have hmap : (mappedAndLogged.emitted {}).op? 2 = some (.call 0 (some (.named "map")) [.value 1]) := by cbv
  have hfree : (mappedAndLogged.emitted {}).isConsumed 8 = false := by cbv
  have hused : (mappedAndLogged.emitted {}).isConsumed 2 = true := by cbv
  obtain ⟨hslots, hmutators, hcalls, _, visits, hrun, hvisits⟩ := Function.lower_uses_once _ _ _ _ hlower
  have hroot := (hcalls 8 _ hlog rfl).resolve_right fun h => by rw [hfree] at h; cbv at h; cases h.1
  have hpart := (hcalls 2 _ hmap rfl).resolve_left fun h => by rw [hused] at h; cases h.1
  refine ⟨_, _, hlower, by cbv, hslots 7 _ hobject rfl, by cbv, hmutators {} 7 (by cbv), hroot.2, hpart.2, visits, hrun, ?_,
    hvisits 7 _ hobject rfl⟩
  have hvisited : visits = _ := (congrArg Prod.snd hrun).symm
  rw [hvisited]
  cbv

end Memoizer
