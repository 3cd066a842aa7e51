import Mathlib.Data.List.Induction
import Mathlib.Order.Basic
import Mathlib.Tactic.Common
import Memoizer.Facts

namespace Memoizer

namespace Body

variable {b : Body} {id : InstId} {op : Op}

theorem op?_eq_some_iff : b.op? id = some op ↔ ∃ place, b.insts[id]? = some ⟨op, place⟩ := by
  simp only [op?, Option.map_eq_some_iff]
  constructor
  · rintro ⟨⟨_, place⟩, hi, rfl⟩
    exact ⟨place, hi⟩
  · rintro ⟨place, hi⟩
    exact ⟨_, hi, rfl⟩

theorem placeAt_of_getElem? {inst : Inst} (h : b.insts[id]? = some inst) : b.placeAt id = inst.place := by
  have hget : b.insts.get? id = some inst := h
  rw [placeAt, hget]
  rfl

theorem lt_size_of_op? (h : b.op? id = some op) : id < b.size := by
  obtain ⟨place, hi⟩ := op?_eq_some_iff.mp h
  exact (List.getElem?_eq_some_iff.mp hi).1

theorem exists_op? (h : id < b.size) : ∃ op, b.op? id = some op :=
  ⟨_, op?_eq_some_iff.mpr ⟨_, List.getElem?_eq_getElem h⟩⟩

theorem op?_eq_none_iff : b.op? id = none ↔ b.size ≤ id := by
  simp [op?, size]

theorem op?_of_mem_entries {p : InstId × Inst} (h : p ∈ b.insts.entries) : b.op? p.1 = some p.2.op :=
  op?_eq_some_iff.mpr ⟨p.2.place, Arena.mem_entries_iff.mp h⟩

theorem operand_lt_size (hb : b.Backward) (h : b.op? id = some op) {k : InstId} (hk : k ∈ op.operands) : k < b.size :=
  Nat.lt_trans (hb id op h k hk) (lt_size_of_op? h)

theorem backward_iff_all :
    b.Backward ↔ (b.insts.entries.all fun p => p.2.op.operands.all (decide <| · < p.1)) = true := by
  simp only [Backward, List.all_eq_true, decide_eq_true_eq, Prod.forall, Arena.mem_entries_iff, op?_eq_some_iff]
  constructor
  · intro h id inst hi
    exact h id inst.op ⟨inst.place, hi⟩
  · rintro h id op ⟨place, hi⟩
    exact h id ⟨op, place⟩ hi

instance : Decidable b.Backward := decidable_of_iff _ backward_iff_all.symm

end Body

section Sweep

variable (seed : Op → Bool) (insts : Arena Inst)

theorem sweep_push_eq_set (inst : Inst) : sweep seed (insts.push inst) =
    (sweep seed insts).set insts.nextKey (seed inst.op || inst.op.operands.any (sweep seed insts).get) := by
  simp only [sweep, Arena.entries_push, List.foldl_append, List.foldl_cons, List.foldl_nil]

theorem length_sweep : (sweep seed insts).length = insts.size := by
  induction insts using List.reverseRecOn with
  | nil => rfl
  | append_singleton insts inst ih =>
      rw [sweep_push_eq_set, Arena.nextKey, ← ih, SideTable.set_length, List.length_append, ih]
      exact (Arena.size_push insts inst).symm

theorem sweep_push (inst : Inst) : sweep seed (insts.push inst) =
    sweep seed insts ++ [seed inst.op || inst.op.operands.any (sweep seed insts).get] := by
  rw [sweep_push_eq_set, Arena.nextKey, ← length_sweep seed insts, SideTable.set_length]

theorem lt_size_of_get_sweep {id : InstId} (h : (sweep seed insts).get id = true) : id < insts.size := by
  by_contra hge
  rw [SideTable.get_of_length_le ((length_sweep seed insts).trans_le (Nat.not_lt.mp hge))] at h
  cases h

end Sweep

theorem Facts.addMutator_addMutator (id : InstId) (f : Facts) : (f.addMutator id).addMutator id = f.addMutator id := by
  simp only [addMutator, IdSet.insert_insert]

namespace Body

section Record

variable (b : Body) (c : Config) (changes writable : SideTable Bool)

theorem describe_addMutator (id m : InstId) (op : Op) (f : Facts) :
    b.describe c changes writable id op (f.addMutator m) = (b.describe c changes writable id op f).addMutator m := rfl

theorem describe_describe (id : InstId) (op : Op) (f : Facts) :
    b.describe c changes writable id op (b.describe c changes writable id op f) =
      b.describe c changes writable id op f := rfl

theorem get_foldl_addMutator (id : InstId) (operands : List InstId) (facts : SideTable Facts) (x : InstId) :
    SideTable.get (operands.foldl (fun (facts : SideTable Facts) k =>
        if writable.get k then facts.modify k (Facts.addMutator id) else facts) facts) x =
      if x ∈ operands ∧ writable.get x = true then (facts.get x).addMutator id else facts.get x := by
  induction operands generalizing facts with
  | nil => simp
  | cons k operands ih =>
      rw [List.foldl_cons, ih]
      by_cases hk : writable.get k = true
      · rw [if_pos hk, SideTable.get_modify]
        by_cases hx : x = k
        · subst hx
          simp [hk, Facts.addMutator_addMutator]
        · simp [hx]
      · have hne (hw : writable.get x = true) : x ≠ k := by
          rintro rfl
          exact hk hw
        rw [if_neg hk]
        refine if_congr (and_congr_left fun hw => ?_) rfl rfl
        rw [List.mem_cons, or_iff_right (hne hw)]

theorem get_addMutators (facts : SideTable Facts) (id : InstId) (op : Op) (x : InstId) :
    (addMutators writable facts id op).get x =
      if op.isCall = true ∧ x ∈ op.operands ∧ writable.get x = true then (facts.get x).addMutator id
      else facts.get x := by
  rw [addMutators]
  split
  next hc => rw [get_foldl_addMutator]; simp [hc]
  next hc => simp [hc]

theorem mem_mutators_addMutators (facts : SideTable Facts) (id : InstId) (op : Op) (x m : InstId) :
    m ∈ ((addMutators writable facts id op).get x).mutators ↔ m ∈ (facts.get x).mutators ∨
      m = id ∧ op.isCall = true ∧ x ∈ op.operands ∧ writable.get x = true := by
  rw [get_addMutators]
  split
  next hcall => simp [Facts.addMutator, hcall, or_comm]
  next hcall => simp [hcall]

theorem length_addMutators {facts : SideTable Facts} (hw : ∀ k, writable.get k = true → k < facts.length) (id : InstId)
    (op : Op) : (addMutators writable facts id op).length = facts.length := by
  rw [addMutators]
  split
  · refine List.foldlRecOn (motive := fun table => List.length table = facts.length) op.operands _ rfl
      fun table htable k _ => ?_
    split
    next hk => rw [SideTable.length_modify_of_lt (htable.symm ▸ hw k hk), htable]
    next => exact htable
  · rfl

theorem mutators_fill (facts : SideTable Facts) (id : InstId) (op : Op) (x : InstId) :
    ((facts.modify id (b.describe c changes writable id op)).get x).mutators = (facts.get x).mutators := by
  rw [SideTable.get_modify]
  split
  next hx => rw [hx]; rfl
  next => rfl

theorem described_addMutators {facts : SideTable Facts} {x : InstId} {own : Op}
    (h : facts.get x = b.describe c changes writable x own (facts.get x)) (id : InstId) (op : Op) :
    (addMutators writable facts id op).get x =
      b.describe c changes writable x own ((addMutators writable facts id op).get x) := by
  rw [get_addMutators]
  split
  · rw [describe_addMutator, ← h]
  · exact h

/-- What the loop has written when it has come through `insts`. An entry stays as its instruction describes it, whatever
mutators are entered behind. -/
structure Recorded (n : Nat) (insts : Arena Inst) (facts : SideTable Facts) : Prop where
  length_eq : facts.length = n
  described : ∀ id inst, insts.get? id = some inst →
    facts.get id = b.describe c changes writable id inst.op (facts.get id)
  mem_mutators_iff : ∀ x m, m ∈ (facts.get x).mutators ↔
    writable.get x = true ∧ ∃ inst, insts.get? m = some inst ∧ inst.op.isCall = true ∧ x ∈ inst.op.operands
  ascending : ∀ x, (facts.get x).mutators.Pairwise (· < ·)

variable {b c changes writable} {n : Nat} {insts : Arena Inst} {facts : SideTable Facts}

theorem Recorded.ofLen (n : Nat) : Recorded b c changes writable n [] (.ofLen n) where
  length_eq := SideTable.length_ofLen n
  described _ _ h := by cases h
  mem_mutators_iff x m := by
    rw [SideTable.get_ofLen]
    simp [default]
  ascending x := by
    rw [SideTable.get_ofLen]
    exact .nil

/-- One turn: the entry of the instruction is filled, and nothing that was written before is lost. -/
theorem Recorded.record (h : Recorded b c changes writable n insts facts) (hn : insts.size < n)
    (hw : ∀ k, writable.get k = true → k < n) (inst : Inst) : Recorded b c changes writable n (insts.push inst)
      (b.record c changes writable facts insts.nextKey inst.op) := by
  have hlength : (facts.modify insts.nextKey (b.describe c changes writable insts.nextKey inst.op)).length = n :=
    (SideTable.length_modify_of_lt (h.length_eq.symm ▸ hn) _).trans h.length_eq
  refine ⟨?_, fun id other hi => described_addMutators b c changes writable ?_ _ _, fun x m => ?_, fun x => ?_⟩
  · exact (length_addMutators _ (hlength.symm ▸ hw) _ _).trans hlength
  · rw [SideTable.get_modify]
    rcases Arena.get?_push_eq_some_iff.mp hi with hi | ⟨rfl, rfl⟩
    · rw [if_neg (Nat.ne_of_lt (Arena.lt_size_of_get? hi))]
      exact h.described id other hi
    · rw [if_pos rfl, describe_describe]
  · rw [Body.record, mem_mutators_addMutators, mutators_fill, h.mem_mutators_iff]
    simp only [Arena.get?_push_eq_some_iff]
    constructor
    · rintro (⟨hx, other, hm, hcall, hread⟩ | ⟨rfl, hcall, hread, hx⟩)
      · exact ⟨hx, other, .inl hm, hcall, hread⟩
      · exact ⟨hx, inst, .inr ⟨rfl, rfl⟩, hcall, hread⟩
    · rintro ⟨hx, other, hm | ⟨rfl, rfl⟩, hcall, hread⟩
      · exact .inl ⟨hx, other, hm, hcall, hread⟩
      · exact .inr ⟨rfl, hcall, hread, hx⟩
  · have hfilled := mutators_fill b c changes writable facts insts.nextKey inst.op x
    rw [Body.record, get_addMutators]
    split
    · exact IdSet.pairwise_insert (hfilled ▸ h.ascending x)
    · exact hfilled ▸ h.ascending x

theorem recorded_recordAll (hw : ∀ k, writable.get k = true → k < n) (hn : insts.size ≤ n) :
    Recorded b c changes writable n insts (b.recordAll c changes writable (.ofLen n) insts) := by
  induction insts using List.reverseRecOn with
  | nil => exact .ofLen n
  | append_singleton insts inst ih =>
      have hlt : Arena.size insts + 1 ≤ n := (Arena.size_push insts inst).symm.trans_le hn
      have hrun : b.recordAll c changes writable (.ofLen n) (insts ++ [inst]) =
          b.record c changes writable (b.recordAll c changes writable (.ofLen n) insts) (Arena.nextKey insts) inst.op := by
        simp only [recordAll, Arena.entries_push, List.foldl_append, List.foldl_cons, List.foldl_nil]
      rw [hrun]
      exact (ih (Nat.le_of_lt hlt)).record hlt hw inst

end Record

theorem recorded_analyze (b : Body) (c : Config) :
    Recorded b c (b.changeFlags c) b.writableFlags b.size b.insts (b.analyze c) :=
  recorded_recordAll (fun _ => lt_size_of_get_sweep _ _) (Nat.le_refl _)

theorem length_analyze (b : Body) (c : Config) : (b.analyze c).length = b.size := (recorded_analyze b c).length_eq

/-- Each instruction has the facts that it describes. -/
theorem factsAt_analyze {b : Body} (c : Config) {id : InstId} {op : Op} (h : b.op? id = some op) :
    factsAt (b.analyze c) id = b.describe c (b.changeFlags c) b.writableFlags id op (factsAt (b.analyze c) id) := by
  obtain ⟨place, hi⟩ := op?_eq_some_iff.mp h
  exact (recorded_analyze b c).described id ⟨op, place⟩ hi

theorem factsAt_of_getElem? {facts : SideTable Facts} {id : InstId} {f : Facts} (h : facts[id]? = some f) :
    factsAt facts id = f := by
  simp [factsAt, SideTable.get, h]

theorem getElem?_eq_factsAt {facts : SideTable Facts} {id : InstId} (h : id < facts.length) :
    facts[id]? = some (factsAt facts id) := SideTable.getElem?_eq_get h

theorem factsAt_analyze_of_size_le {b : Body} (c : Config) {id : InstId} (h : b.size ≤ id) :
    factsAt (b.analyze c) id = {} :=
  SideTable.get_of_length_le ((length_analyze b c).trans_le h)

theorem mayChange_analyze {b : Body} (c : Config) {id : InstId} {op : Op} (h : b.op? id = some op) :
    (factsAt (b.analyze c) id).mayChange = (b.changeFlags c).get id := by
  rw [factsAt_analyze c h]
  rfl

theorem writable_analyze {b : Body} (c : Config) {id : InstId} {op : Op} (h : b.op? id = some op) :
    (factsAt (b.analyze c) id).writable = b.writableFlags.get id := by
  rw [factsAt_analyze c h]
  rfl

theorem mem_dependencies_iff {b : Body} (c : Config) {id : InstId} {op : Op} (h : b.op? id = some op) (k : InstId) :
    k ∈ (factsAt (b.analyze c) id).dependencies ↔ k ∈ op.operands ∧ (b.changeFlags c).get k = true := by
  rw [factsAt_analyze c h]
  simp [describe]

theorem memo_iff {b : Body} (c : Config) {id : InstId} {op : Op} (h : b.op? id = some op) :
    (factsAt (b.analyze c) id).memo = true ↔
      b.isExpensive c op = true ∧ (factsAt (b.analyze c) id).dependencies ≠ [] := by
  rw [factsAt_analyze c h]
  simp [describe]

theorem lt_size_of_mem_dependencies {b : Body} (c : Config) {id k : InstId}
    (h : k ∈ (factsAt (b.analyze c) id).dependencies) : id < b.size := by
  by_contra hge
  rw [factsAt_analyze_of_size_le c (Nat.not_lt.mp hge)] at h
  cases h

theorem dependency_lt {b : Body} (hb : b.Backward) (c : Config) {id k : InstId}
    (h : k ∈ (factsAt (b.analyze c) id).dependencies) : k < id := by
  -- A dependency is an operand, so it is known before the value that reads it.
  obtain ⟨op, ho⟩ := exists_op? (lt_size_of_mem_dependencies c h)
  exact hb id op ho k ((mem_dependencies_iff c ho k).mp h).1

theorem mem_mutators_iff (b : Body) (c : Config) (x m : InstId) :
    m ∈ (factsAt (b.analyze c) x).mutators ↔ b.writableFlags.get x = true ∧
      ∃ op, b.op? m = some op ∧ op.isCall = true ∧ x ∈ op.operands := by
  rw [factsAt, (recorded_analyze b c).mem_mutators_iff]
  simp only [op?_eq_some_iff]
  refine and_congr_right fun _ => ⟨?_, ?_⟩
  · rintro ⟨⟨op, place⟩, hm, hcall, hread⟩
    exact ⟨op, ⟨place, hm⟩, hcall, hread⟩
  · rintro ⟨op, ⟨place, hm⟩, hcall, hread⟩
    exact ⟨⟨op, place⟩, hm, hcall, hread⟩

theorem mutators_ascending (b : Body) (c : Config) (x : InstId) :
    (factsAt (b.analyze c) x).mutators.Pairwise (· < ·) := (recorded_analyze b c).ascending x

theorem lt_of_mem_mutators {b : Body} (hb : b.Backward) {c : Config} {x m : InstId}
    (h : m ∈ (factsAt (b.analyze c) x).mutators) : x < m ∧ m < b.size := by
  obtain ⟨_, op, hm, _, hx⟩ := (mem_mutators_iff b c x m).mp h
  exact ⟨hb m op hm x hx, lt_size_of_op? hm⟩

end Body

end Memoizer
