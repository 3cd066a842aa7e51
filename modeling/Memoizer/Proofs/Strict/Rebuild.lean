import Memoizer.Proofs.Partition
import Memoizer.Proofs.Strict.Partition

namespace Memoizer.Strict

variable {b : Body}

theorem rebuildOperand_eq {strict : InstId → Option Expr} {value : InstId → Expr} {operand : Operand}
    (h : ∀ k, operand.id? = some k → strict k = some (value k)) :
    rebuildOperand strict operand = some (operand.rebuildWith value) := by
  cases operand with
  | literal lit => rfl
  | value k => exact h k rfl

theorem firstMemo_eq {facts : SideTable Facts} {ids : List InstId} (hids : ∀ id ∈ ids, id < facts.length) :
    firstMemo facts ids = some (ids.find? fun id => (factsAt facts id).memo) := by
  induction ids with
  | nil => rfl
  | cons id ids ih =>
      have hid := hids id (by simp)
      rw [firstMemo, Body.getElem?_eq_factsAt hid, List.find?_cons, ih fun k hk => hids k (by simp [hk])]
      simp only [Option.bind_eq_bind, Option.bind_some]
      cases (factsAt facts id).memo <;> rfl

theorem dependencyNames_eq {ids : List InstId} (hids : ∀ id ∈ ids, id < b.size) :
    dependencyNames b ids = some (firstOccurrences (ids.flatMap b.dependencyNames)) := by
  have hnames : (ids.map fun id => (b.op? id).getD (.ret none)).flatMap Op.boundNames =
      ids.flatMap b.dependencyNames := by
    rw [List.flatMap_map]
    congr 1
    funext id
    rw [Body.dependencyNames]
    cases b.op? id <;> rfl
  simp only [dependencyNames, mapM_op?_eq hids, hnames, Option.bind_eq_bind, Option.bind_some]

variable (hb : b.Backward)

include hb

theorem rebuildExpr_eq {steps : Nat} {id : InstId} (hid : id < b.size) (hsteps : id < steps) :
    rebuildExpr b steps id = some (b.rebuildExpr id) := by
  induction steps generalizing id with
  | zero => cases hsteps
  | succ steps ih =>
      obtain ⟨op, ho⟩ := Body.exists_op? hid
      let value (k : InstId) : Expr := if k < id then b.rebuildExpr k else .undefined
      have hvalue (k : InstId) (hmem : k ∈ op.operands) : rebuildExpr b steps k = some (value k) := by
        have hlt := hb id op ho k hmem
        simp only [value, if_pos hlt]
        exact ih (Nat.lt_trans hlt hid) (Nat.lt_of_lt_of_le hlt (Nat.le_of_lt_succ hsteps))
      rw [rebuildExpr, Body.rebuildExpr, ho]
      change _ = some (op.rebuildWith value)
      cases op with
      | param | constant | declare => rfl
      | read base property =>
          simp only [Option.bind_eq_bind, Option.bind_some, hvalue base (by simp [Op.operands])]
          rfl
      | object props =>
          have hprops : props.mapM (fun p => (rebuildOperand (rebuildExpr b steps) p.2).bind fun value =>
                some (ObjectMember.property (.ident p.1) value false)) =
              some (props.map fun p => ObjectMember.property (.ident p.1) (p.2.rebuildWith value) false) := by
            refine mapM_eq_some fun p hp => ?_
            rw [rebuildOperand_eq fun k hk => hvalue k (List.mem_filterMap.mpr ⟨p, hp, hk⟩)]
            rfl
          simp only [Option.bind_eq_bind, Option.bind_some, hprops]
          rfl
      | call receiver property args =>
          have hargs : args.mapM (rebuildOperand (rebuildExpr b steps)) = some (args.map (Operand.rebuildWith value)) := by
            refine mapM_eq_some fun a ha => rebuildOperand_eq fun k hk => ?_
            exact hvalue k (List.mem_cons_of_mem _ (List.mem_filterMap.mpr ⟨a, ha, hk⟩))
          simp only [Option.bind_eq_bind, Option.bind_some, hvalue receiver (by simp [Op.operands]), hargs]
          cases property <;> rfl
      | ret value =>
          cases value with
          | none => rfl
          | some k => exact hvalue k (by simp [Op.operands])

variable {steps : Nat} (hsteps : b.size ≤ steps)

include hsteps

theorem rebuildStmt_eq {id : InstId} (hid : id < b.size) (isRoot : Bool) :
    rebuildStmt b steps id isRoot = some (b.rebuildStmt? id isRoot) := by
  obtain ⟨op, ho⟩ := Body.exists_op? hid
  obtain ⟨place, hi⟩ := Body.op?_eq_some_iff.mp ho
  have hplace : b.placeAt id = place := by simp [Body.placeAt, hi]
  have hrebuild {k : InstId} (hk : k < b.size) : rebuildExpr b steps k = some (b.rebuildExpr k) :=
    rebuildExpr_eq hb hk (Nat.lt_of_lt_of_le hk hsteps)
  have hk (k : InstId) (hmem : k ∈ op.operands) : rebuildExpr b steps k = some (b.rebuildExpr k) :=
    hrebuild (Body.operand_lt_size hb ho hmem)
  rw [rebuildStmt, Body.rebuildStmt?, ho, hi, hplace]
  cases op with
  | param | constant | read | object => rfl
  | declare kind pattern name value =>
      simp only [Option.bind_eq_bind, Option.bind_some, hk value (by simp [Op.operands])]
  | call receiver property args =>
      simp only [Option.bind_eq_bind, Option.bind_some, hrebuild hid]
      cases isRoot <;> rfl
  | ret value =>
      cases value with
      | none => rfl
      | some k => simp only [Option.bind_eq_bind, Option.bind_some, hk k (by simp [Op.operands]), Option.map_some]

theorem reconstruct_eq : reconstruct b steps = some b.reconstruct := by
  have hstmts : (List.range b.size).mapM (fun id =>
        ((List.range b.size).map b.isConsumed)[id]?.bind fun used => rebuildStmt b steps id (!used)) =
      some ((List.range b.size).map fun id => b.rebuildStmt? id (!b.isConsumed id)) := by
    refine mapM_eq_some fun id hid => ?_
    have hlt := List.mem_range.mp hid
    simp [hlt, rebuildStmt_eq hb hsteps hlt]
  simp only [reconstruct, consumed_eq hb, hstmts, Option.bind_eq_bind, Option.bind_some, Body.reconstruct]
  rw [List.filterMap_map]
  rfl

theorem memoDecl_eq (c : Config) {n : Nat} (hn : n + 1 < 4294967296) {span : Span} (hstop : span.stop < b.size) :
    memoDecl b steps c (b.analyze c) n (b.blockOf (b.analyze c) span) =
      some (b.memoDecl c (b.analyze c) n (b.blockOf (b.analyze c) span)) := by
  have hin (id : InstId) (hid : id ∈ span.ids) : id < b.size := Span.lt_of_mem_ids hid hstop
  have hdeps (d : InstId) (hd : d ∈ (b.blockOf (b.analyze c) span).deps) : d < b.size := by
    obtain ⟨⟨id, hid, hmem⟩, _⟩ := Body.mem_deps_blockOf_iff.mp hd
    exact Nat.lt_trans (Body.dependency_lt hb c hmem) (hin id (Span.mem_ids_iff.mpr hid))
  have hfirst : firstMemo (b.analyze c) span.ids = some (span.ids.find? fun id => (factsAt (b.analyze c) id).memo) :=
    firstMemo_eq fun id hid => (Body.length_analyze b c).symm ▸ hin id hid
  rw [memoDecl, Body.memoDecl]
  split
  · rfl
  · simp only [Body.keys_blockOf hstop, hfirst, Option.bind_eq_bind, Option.bind_some]
    cases hfind : span.ids.find? fun id => (factsAt (b.analyze c) id).memo with
    | none => rfl
    | some target =>
        have hlt := hin target (List.mem_of_find?_eq_some hfind)
        obtain ⟨op, ho⟩ := Body.exists_op? hlt
        obtain ⟨place, hi⟩ := Body.op?_eq_some_iff.mp ho
        have hplace : b.placeAt target = place := Body.placeAt_of_getElem? hi
        simp only [Option.bind_some, dependencyNames_eq hdeps, rebuildExpr_eq hb hlt (Nat.lt_of_lt_of_le hlt hsteps), hi,
          hplace]
        rfl

theorem memoDecls_eq (c : Config) (n : Nat) (items : List PartItem)
    (hblocks : ∀ block ∈ blocksOf items, ∃ span, span.stop < b.size ∧ block = b.blockOf (b.analyze c) span)
    (hn : n + (blocksOf items).length < 4294967296) :
    memoDecls b steps c (b.analyze c) n items = some (b.memoDecls c (b.analyze c) n items) := by
  induction items generalizing n with
  | nil => rfl
  | cons item items ih =>
      cases item with
      | pass id => exact ih n hblocks hn
      | block block =>
          obtain ⟨span, hstop, rfl⟩ := hblocks block (by simp [blocksOf, PartItem.block?])
          have hlen : n + ((blocksOf items).length + 1) < 4294967296 := hn
          have hdecl := memoDecl_eq hb hsteps c (n := n) (by omega) hstop
          have hone : (b.memoDecl c (b.analyze c) n (b.blockOf (b.analyze c) span)).decl.toList.length ≤ 1 := by
            cases (b.memoDecl c (b.analyze c) n (b.blockOf (b.analyze c) span)).decl <;> simp
          have hrest := ih (n + (b.memoDecl c (b.analyze c) n (b.blockOf (b.analyze c) span)).decl.toList.length)
            (fun other ho => hblocks other (List.mem_cons_of_mem _ ho)) (by omega)
          simp only [memoDecls, Body.memoDecls, hdecl, hrest, Option.bind_eq_bind, Option.bind_some]

end Memoizer.Strict
