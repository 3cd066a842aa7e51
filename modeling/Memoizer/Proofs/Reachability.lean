import Mathlib.Data.List.GetD
import Mathlib.Data.List.Induction
import Mathlib.Logic.Relation
import Memoizer.Proofs.Facts

namespace Memoizer

section Sweep

variable (seed : Op → Bool)

theorem get_sweep_push {insts : Arena Inst} {id : InstId} (h : id < insts.size) (inst : Inst) :
    (sweep seed (insts.push inst)).get id = (sweep seed insts).get id := by
  have hlen : id < (sweep seed insts).length := by rwa [length_sweep]
  rw [sweep_push, SideTable.get, SideTable.get, List.getD_append _ _ _ _ hlen]

theorem any_get_sweep_push {insts : Arena Inst} {operands : List InstId} (h : ∀ k ∈ operands, k < insts.size)
    (inst : Inst) : operands.any (sweep seed (insts.push inst)).get = operands.any (sweep seed insts).get := by
  induction operands with
  | nil => rfl
  | cons k operands ih =>
      obtain ⟨hk, hrest⟩ := List.forall_mem_cons.mp h
      rw [List.any_cons, List.any_cons, get_sweep_push seed hk, ih hrest]

theorem get_sweep_eq {insts : Arena Inst}
    (hback : ∀ (id : InstId) (inst : Inst), insts[id]? = some inst → ∀ k ∈ inst.op.operands, k < id)
    {id : InstId} {inst : Inst} (hi : insts[id]? = some inst) : (sweep seed insts).get id =
      (seed inst.op || inst.op.operands.any (sweep seed insts).get) := by
  induction insts using List.reverseRecOn generalizing id inst with
  | nil => cases hi
  | append_singleton insts last ih =>
      have hfront (id : InstId) (inst : Inst) (hi : insts[id]? = some inst) : (insts ++ [last])[id]? = some inst := by
        rw [List.getElem?_append_left (List.getElem?_eq_some_iff.mp hi).1, hi]
      rcases Nat.lt_or_ge id insts.length with hlt | hge
      · rw [List.getElem?_append_left hlt] at hi
        have hops : ∀ k ∈ inst.op.operands, k < insts.length := fun k hk =>
          Nat.lt_trans (hback id inst (hfront id inst hi) k hk) hlt
        rw [get_sweep_push seed hlt, any_get_sweep_push seed hops]
        exact ih (fun id inst hi => hback id inst (hfront id inst hi)) hi
      · have hid : id = insts.length := by
          have hlt := (List.getElem?_eq_some_iff.mp hi).1
          rw [List.length_append, List.length_singleton] at hlt
          exact Nat.le_antisymm (Nat.le_of_lt_succ hlt) hge
        subst hid
        obtain rfl : last = inst := by simpa using hi
        have hlen : insts.length = (sweep seed insts).length := (length_sweep seed insts).symm
        rw [any_get_sweep_push seed (hback _ last hi), sweep_push, hlen, SideTable.get]
        simp

end Sweep

namespace Body

variable {b : Body} {p : Op → Prop} {id : InstId} {op : Op}

def Reads (b : Body) (id k : InstId) : Prop := ∃ op, b.op? id = some op ∧ k ∈ op.operands

/-- A chain of operands, of any length, leads from `id` to an instruction with the property. -/
def Reaches (b : Body) (p : Op → Prop) (id : InstId) : Prop :=
  ∃ k op, Relation.ReflTransGen b.Reads id k ∧ b.op? k = some op ∧ p op

theorem reaches_iff (ho : b.op? id = some op) : b.Reaches p id ↔ p op ∨ ∃ k ∈ op.operands, b.Reaches p k := by
  constructor
  · rintro ⟨k, source, hchain, hk, hp⟩
    rcases Relation.ReflTransGen.cases_head hchain with rfl | ⟨j, ⟨op', ho', hj⟩, hrest⟩
    · obtain rfl := Option.some.inj (ho.symm.trans hk)
      exact .inl hp
    · obtain rfl := Option.some.inj (ho.symm.trans ho')
      exact .inr ⟨j, hj, k, source, hrest, hk, hp⟩
  · rintro (hp | ⟨j, hj, k, source, hchain, hk, hp⟩)
    · exact ⟨id, op, .refl, ho, hp⟩
    · exact ⟨k, source, .head ⟨op, ho, hj⟩ hchain, hk, hp⟩

variable (hb : b.Backward)

include hb

/-- The sweep needs no second round: it marks all that a chain leads back from, and nothing else. -/
theorem get_sweep_iff (seed : Op → Bool) (ho : b.op? id = some op) :
    (sweep seed b.insts).get id = true ↔ b.Reaches (seed · = true) id := by
  have hback (id : InstId) (inst : Inst) (hi : b.insts[id]? = some inst) : ∀ k ∈ inst.op.operands, k < id :=
    hb id inst.op (op?_eq_some_iff.mpr ⟨inst.place, hi⟩)
  -- Every operand stands in front, so its flag is known to be right by induction on the id.
  induction id using Nat.strongRecOn generalizing op with
  | ind id ih =>
      obtain ⟨place, hi⟩ := op?_eq_some_iff.mp ho
      rw [get_sweep_eq seed hback hi, reaches_iff ho, Bool.or_eq_true, List.any_eq_true]
      refine or_congr_right (exists_congr fun k => and_congr_right fun hk => ?_)
      obtain ⟨op', ho'⟩ := exists_op? (operand_lt_size hb ho hk)
      exact ih k (hb id op ho k hk) ho'

end Body

def Op.IsFresh (op : Op) : Prop :=
  (∃ props, op = .object props) ∨ ∃ receiver property args, op = .call receiver property args

namespace Body

def IsInput (b : Body) (c : Config) (op : Op) : Prop :=
  (∃ name, op = .param name) ∨ ∃ receiver property args name, op = .call receiver property args ∧
    b.calleeName receiver property = some name ∧ c.isHook name = true

theorem seedsChange_iff (b : Body) (c : Config) (op : Op) : b.seedsChange c op = true ↔ b.IsInput c op := by
  cases op with
  | call receiver property args => simp [seedsChange, IsInput, Option.any_eq_true]
  | param | constant | declare | read | object | ret => simp [seedsChange, IsInput]

theorem seedsWritable_iff (op : Op) : seedsWritable op = true ↔ op.IsFresh := by
  cases op <;> simp [seedsWritable, Op.IsFresh]

instance (b : Body) (c : Config) (op : Op) : Decidable (b.IsInput c op) := decidable_of_iff _ (b.seedsChange_iff c op)

theorem mayChange_iff {b : Body} (hb : b.Backward) (c : Config) {id : InstId} {op : Op} (ho : b.op? id = some op) :
    (factsAt (b.analyze c) id).mayChange = true ↔ b.Reaches (b.IsInput c) id := by
  rw [mayChange_analyze c ho, changeFlags, get_sweep_iff hb _ ho]
  simp only [seedsChange_iff]

/-- The facts say of the instruction `op` at `id` what the chains of operands say. -/
structure Exact (b : Body) (c : Config) (facts : SideTable Facts) (id : InstId) (op : Op) : Prop where
  mayChange_iff : (factsAt facts id).mayChange = true ↔ b.Reaches (b.IsInput c) id
  writable_iff : (factsAt facts id).writable = true ↔ b.Reaches Op.IsFresh id
  dependencies_ascending : (factsAt facts id).dependencies.Pairwise (· < ·)
  mem_dependencies_iff : ∀ k, k ∈ (factsAt facts id).dependencies ↔
    k ∈ op.operands ∧ (factsAt facts k).mayChange = true
  memo_iff : (factsAt facts id).memo = true ↔ b.isExpensive c op = true ∧ (factsAt facts id).dependencies ≠ []
  mutators_ascending : (factsAt facts id).mutators.Pairwise (· < ·)
  mem_mutators_iff : ∀ m, m ∈ (factsAt facts id).mutators ↔
    (factsAt facts id).writable = true ∧ ∃ call, b.op? m = some call ∧ call.isCall = true ∧ id ∈ call.operands

/-- One pass in program order finds all there is to find. -/
theorem analyze_exact (b : Body) (hb : b.Backward) (c : Config) :
    (b.analyze c).length = b.size ∧ ∀ id op, b.op? id = some op → b.Exact c (b.analyze c) id op := by
  refine ⟨b.length_analyze c, fun id op ho => ?_⟩
  refine ⟨mayChange_iff hb c ho, ?_, ?_, fun k => ?_, memo_iff c ho, mutators_ascending b c id, fun m => ?_⟩
  · rw [writable_analyze c ho, writableFlags, get_sweep_iff hb _ ho]
    simp only [seedsWritable_iff]
  · rw [factsAt_analyze c ho]
    exact IdSet.pairwise_ofList _
  · rw [mem_dependencies_iff c ho]
    refine and_congr_right fun hk => ?_
    obtain ⟨op', ho'⟩ := exists_op? (operand_lt_size hb ho hk)
    rw [mayChange_analyze c ho']
  · rw [mem_mutators_iff, writable_analyze c ho]

/-- `const rows = useRows(); g(rows.map(h));`, with globals `g` and `h`. -/
def hookedRows : Body where
  name := "f"
  insts := [⟨.constant (.global "useRows"), none⟩, ⟨.call 0 none [], none⟩,
    ⟨.declare .const (.ident "rows") "rows" 1, none⟩, ⟨.constant (.global "g"), none⟩,
    ⟨.constant (.global "h"), none⟩, ⟨.call 2 (some (.named "map")) [.value 4], none⟩, ⟨.call 3 none [.value 5], none⟩]

theorem analyze_hookedRows : hookedRows.Backward ∧ (hookedRows.analyze {}).length = 7 ∧
    hookedRows.Reaches (hookedRows.IsInput {}) 6 ∧ ¬ hookedRows.Reaches (hookedRows.IsInput {}) 3 ∧
    hookedRows.Reaches Op.IsFresh 2 ∧ (factsAt (hookedRows.analyze {}) 5).memo = true ∧
    6 ∈ (factsAt (hookedRows.analyze {}) 5).mutators := by
  have hb : hookedRows.Backward := by decide
  obtain ⟨hlength, hexact⟩ := analyze_exact hookedRows hb {}
  refine ⟨hb, hlength, ?_, ?_, ?_, ?_, ?_⟩
  · apply (hexact 6 _ rfl).mayChange_iff.mp
    decide +kernel
  · rw [← (hexact 3 _ rfl).mayChange_iff]
    decide +kernel
  · apply (hexact 2 _ rfl).writable_iff.mp
    decide +kernel
  · apply (hexact 5 _ rfl).memo_iff.mpr
    decide +kernel
  · refine ((hexact 5 _ rfl).mem_mutators_iff 6).mpr ⟨?_, _, rfl, rfl, ?_⟩
    · decide +kernel
    · decide

end Body

end Memoizer
