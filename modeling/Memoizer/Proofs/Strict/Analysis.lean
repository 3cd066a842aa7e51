import Mathlib.Tactic.Common
import Memoizer.Proofs.Facts
import Memoizer.Proofs.Strict.Basic

namespace Memoizer.Strict

section Loops

variable {α β : Type}

theorem mapM_eq_some {f : α → Option β} {g : α → β} {l : List α} (h : ∀ x ∈ l, f x = some (g x)) :
    l.mapM f = some (l.map g) := by
  induction l with
  | nil => rfl
  | cons x l ih =>
      rw [List.mapM_cons, h x (by simp), ih fun y hy => h y (by simp [hy])]
      rfl

theorem mapM_eq_some_filterMap {f : α → Option β} {l : List α} (h : ∀ x ∈ l, (f x).isSome) :
    l.mapM f = some (l.filterMap f) := by
  induction l with
  | nil => rfl
  | cons x l ih =>
      obtain ⟨y, hy⟩ := Option.isSome_iff_exists.mp (h x (by simp))
      rw [List.mapM_cons, hy, ih fun z hz => h z (by simp [hz]), List.filterMap_cons_some hy]
      rfl

/-- A loop goes through if every step does from where the invariant holds. -/
theorem foldlM_eq_some {f : β → α → Option β} {g : β → α → β} (inv : β → Prop) {l : List α}
    (h : ∀ b, inv b → ∀ x ∈ l, f b x = some (g b x) ∧ inv (g b x)) {b : β} (hb : inv b) :
    l.foldlM f b = some (l.foldl g b) ∧ inv (l.foldl g b) := by
  induction l generalizing b with
  | nil => exact ⟨rfl, hb⟩
  | cons x l ih =>
      obtain ⟨hx, hinv⟩ := h b hb x (by simp)
      obtain ⟨hl, hend⟩ := ih (fun b hb y hy => h b hb y (by simp [hy])) hinv
      refine ⟨?_, hend⟩
      rw [List.foldlM_cons, hx]
      exact hl

end Loops

theorem addMutator_eq {writable : SideTable Bool} {facts : SideTable Facts} (id : InstId) {k : InstId}
    (hw : k < writable.length) (hf : k < facts.length) :
    addMutator writable id facts k = some (if writable.get k then facts.modify k (Facts.addMutator id) else facts) := by
  rw [addMutator, SideTable.getElem?_eq_get hw, SideTable.getElem?_eq_get hf]
  rfl

theorem getElem?_foldl_set (operands : List InstId) (used : List Bool) (i : InstId) :
    (operands.foldl (fun used k => used.set k true) used)[i]? = used[i]?.map (· || operands.contains i) := by
  induction operands generalizing used with
  | nil => simp
  | cons k operands ih =>
      rw [List.foldl_cons, ih, List.getElem?_set]
      by_cases hk : k = i
      · subst hk
        by_cases hlt : k < used.length
        · simp [hlt]
        · simp [hlt]
      · simp [hk, Ne.symm hk]

theorem getElem?_foldl_flags (insts : List Inst) (used : List Bool) (i : InstId) :
    (insts.foldl (fun used inst => inst.op.operands.foldl (fun used k => used.set k true) used) used)[i]? =
      used[i]?.map (· || insts.any (·.op.operands.contains i)) := by
  induction insts generalizing used with
  | nil => simp
  | cons inst insts ih =>
      rw [List.foldl_cons, ih, getElem?_foldl_set, Option.map_map]
      simp only [Function.comp_def, List.any_cons, Bool.or_assoc]

section Body

variable {b : Body}

theorem mapM_op?_eq {ids : List InstId} (hids : ∀ id ∈ ids, id < b.size) :
    ids.mapM b.op? = some (ids.map fun id => (b.op? id).getD (.ret none)) := by
  refine mapM_eq_some fun id hid => ?_
  obtain ⟨op, ho⟩ := Body.exists_op? (hids id hid)
  simp [ho]

variable (hb : b.Backward)

include hb

theorem valuePath_eq {steps : Nat} {id : InstId} (hid : id < b.size) (hsteps : id < steps) :
    valuePath b steps id = some (b.valuePath id) := by
  induction steps generalizing id with
  | zero => cases hsteps
  | succ steps ih =>
      obtain ⟨op, ho⟩ := Body.exists_op? hid
      rw [valuePath, Body.valuePath, ho]
      cases op with
      | read object property =>
          have hlt : object < id := hb id _ ho object (by simp [Op.operands])
          simp [ih (Nat.lt_trans hlt hid) (Nat.lt_of_lt_of_le hlt (Nat.le_of_lt_succ hsteps)), hlt]
      | constant value => cases value <;> rfl
      | param | declare | object | call | ret => rfl

theorem pathRoot_eq {steps : Nat} {id : InstId} (hid : id < b.size) (hsteps : id < steps) :
    pathRoot b steps id = some (b.pathRoot id) ∧ b.pathRoot id < b.size := by
  induction steps generalizing id with
  | zero => cases hsteps
  | succ steps ih =>
      obtain ⟨op, ho⟩ := Body.exists_op? hid
      rw [pathRoot, Body.pathRoot, ho]
      cases op with
      | read object property =>
          have hlt : object < id := hb id _ ho object (by simp [Op.operands])
          simpa [hlt] using ih (Nat.lt_trans hlt hid) (Nat.lt_of_lt_of_le hlt (Nat.le_of_lt_succ hsteps))
      | param | constant | declare | object | call | ret => exact ⟨rfl, hid⟩

/-- Operands refer backward, so their flags are there when the sweep comes to ask. -/
theorem sweep_eq {seed : Op → Option Bool} {total : Op → Bool}
    (hseed : ∀ id op, b.op? id = some op → seed op = some (total op)) :
    sweep seed b.insts = some (Memoizer.sweep total b.insts) := by
  have hrun (rest : List Inst) : ∀ front : List Inst, b.insts = front ++ rest → rest.foldlM (fun flags inst => do
        let seeded ← seed inst.op
        let inputs ← inst.op.operands.mapM (flags[·]?)
        some (flags ++ [seeded || inputs.any id])) (Memoizer.sweep total front) =
      some (Memoizer.sweep total b.insts) := by
    induction rest with
    | nil =>
        intro front hfront
        rw [hfront, List.append_nil]
        rfl
    | cons inst rest ih =>
        intro front hfront
        have ho : b.op? front.length = some inst.op := by simp [Body.op?, hfront]
        have hinputs : inst.op.operands.mapM ((Memoizer.sweep total front)[·]?) =
            some (inst.op.operands.map (Memoizer.sweep total front).get) := by
          refine mapM_eq_some fun k hk => SideTable.getElem?_eq_get ?_
          exact (hb _ _ ho k hk).trans_eq (length_sweep total front).symm
        have hany : (inst.op.operands.map (Memoizer.sweep total front).get).any id =
            inst.op.operands.any (Memoizer.sweep total front).get := List.any_map
        rw [List.foldlM_cons, hseed _ _ ho, hinputs, ← ih (front ++ [inst]) (by simp [hfront]), sweep_push]
        simp only [Option.bind_eq_bind, Option.bind_some, hany]
  exact hrun b.insts [] rfl

theorem addMutators_eq {writable : SideTable Bool} {facts : SideTable Facts} {id : InstId} {op : Op}
    (hw : writable.length = b.size) (hf : facts.length = b.size) (ho : b.op? id = some op) :
    addMutators writable facts id op = some (Body.addMutators writable facts id op) := by
  rw [addMutators, Body.addMutators]
  split
  · refine (foldlM_eq_some (fun facts => List.length facts = b.size) (fun facts hf k hk => ?_) hf).1
    have hlt := Body.operand_lt_size hb ho hk
    have hlt' : k < List.length facts := hf.symm ▸ hlt
    refine ⟨addMutator_eq id (hw.symm ▸ hlt) hlt', ?_⟩
    split
    · exact (SideTable.length_modify_of_lt hlt' _).trans hf
    · exact hf
  · rfl

theorem consumed_eq : consumed b = some ((List.range b.size).map b.isConsumed) := by
  have hrun : consumed b = some (b.insts.foldl (fun used inst =>
      inst.op.operands.foldl (fun used k => used.set k true) used) (List.replicate b.size false)) := by
    refine (foldlM_eq_some (fun used : List Bool => used.length = b.size) (fun used hu inst hi => ?_)
      List.length_replicate).1
    obtain ⟨id, hid⟩ := List.getElem?_of_mem hi
    have ho : b.op? id = some inst.op := Body.op?_eq_some_iff.mpr ⟨inst.place, hid⟩
    refine foldlM_eq_some (fun used : List Bool => used.length = b.size) (fun used hu k hk => ?_) hu
    have hlt := Body.operand_lt_size hb ho hk
    exact ⟨by simp [setFlag, hu, hlt], by simp [hu]⟩
  rw [hrun]
  congr 1
  apply List.ext_getElem?
  intro i
  rw [getElem?_foldl_flags, List.getElem?_replicate, List.getElem?_map]
  by_cases hi : i < b.size
  · simp [hi, Body.isConsumed]
  · simp [hi]

variable {steps : Nat} (hsteps : b.size ≤ steps)

include hsteps

theorem calleeName_eq {receiver : InstId} (hr : receiver < b.size) (property : Option Property) :
    calleeName b steps receiver property = some (b.calleeName receiver property) := by
  unfold calleeName Body.calleeName
  rw [valuePath_eq hb hr (Nat.lt_of_lt_of_le hr hsteps)]
  cases b.valuePath receiver <;> cases property <;> rfl

theorem globalCalleeName_eq {receiver : InstId} (hr : receiver < b.size) (property : Option Property) :
    globalCalleeName b steps receiver property = some (b.globalCalleeName receiver property) := by
  obtain ⟨hroot, hlt⟩ := pathRoot_eq hb hr (Nat.lt_of_lt_of_le hr hsteps)
  obtain ⟨op, ho⟩ := Body.exists_op? hlt
  rw [globalCalleeName, Body.globalCalleeName, hroot, Body.isGlobal]
  simp only [Option.bind_eq_bind, Option.bind_some, ho]
  cases op with
  | constant value =>
      cases value with
      | global name => exact calleeName_eq hb hsteps hr property
      | literal | function | unsupported => rfl
  | param | declare | read | object | call | ret => rfl

theorem seedsChange_eq (c : Config) {id : InstId} {op : Op} (ho : b.op? id = some op) :
    seedsChange b steps c op = some (b.seedsChange c op) := by
  cases op with
  | call receiver property args =>
      have hr : receiver < b.size := Body.operand_lt_size hb ho (by simp [Op.operands])
      simp [seedsChange, Body.seedsChange, calleeName_eq hb hsteps hr]
  | param | constant | declare | read | object | ret => rfl

theorem isExpensive_eq (c : Config) {id : InstId} {op : Op} (ho : b.op? id = some op) :
    isExpensive b steps c op = some (b.isExpensive c op) := by
  cases op with
  | call receiver property args =>
      have hr : receiver < b.size := Body.operand_lt_size hb ho (by simp [Op.operands])
      rw [isExpensive, Body.isExpensive]
      split
      next hp => simp [hp]
      next hp => simp [hp, globalCalleeName_eq hb hsteps hr]
  | param | constant | declare | read | object | ret => rfl

theorem describe_eq (c : Config) {changes writable : SideTable Bool} {id : InstId} {op : Op}
    (hc : changes.length = b.size) (hw : writable.length = b.size) (ho : b.op? id = some op) (f : Facts) :
    describe b steps c changes writable id op f = some (b.describe c changes writable id op f) := by
  have hid := Body.lt_size_of_op? ho
  have hreads : op.operands.mapM (fun k => changes[k]?.map (k, ·)) =
      some (op.operands.map fun k => (k, changes.get k)) := by
    refine mapM_eq_some fun k hk => ?_
    rw [SideTable.getElem?_eq_get ((Body.operand_lt_size hb ho hk).trans_eq hc.symm)]
    rfl
  have hdeps : ((op.operands.map fun k => (k, changes.get k)).filter (·.2)).map (·.1) =
      op.operands.filter changes.get := by
    simp [List.filter_map, Function.comp_def]
  simp only [describe, hreads, isExpensive_eq hb hsteps c ho, SideTable.getElem?_eq_get (hid.trans_eq hc.symm),
    SideTable.getElem?_eq_get (hid.trans_eq hw.symm), Option.bind_eq_bind, Option.bind_some, hdeps]
  rfl

theorem record_eq (c : Config) {changes writable : SideTable Bool} {facts : SideTable Facts} {id : InstId} {op : Op}
    (hc : changes.length = b.size) (hw : writable.length = b.size) (hf : facts.length = b.size)
    (ho : b.op? id = some op) :
    record b steps c changes writable facts id op = some (b.record c changes writable facts id op) ∧
      (b.record c changes writable facts id op).length = b.size := by
  have hlt : id < facts.length := (Body.lt_size_of_op? ho).trans_eq hf.symm
  have hfilled : (facts.modify id (b.describe c changes writable id op)).length = b.size :=
    (SideTable.length_modify_of_lt hlt _).trans hf
  have hwritable (k : InstId) (hk : writable.get k = true) : k < b.size := by
    by_contra hge
    rw [SideTable.get_of_length_le (hw.trans_le (Nat.not_lt.mp hge))] at hk
    cases hk
  constructor
  · simp only [record, SideTable.getElem?_eq_get hlt, Option.bind_eq_bind, Option.bind_some, describe_eq hb hsteps c hc hw ho]
    exact addMutators_eq hb hw hfilled ho
  · exact (Body.length_addMutators _ (hfilled.symm ▸ hwritable) ..).trans hfilled

theorem analyze_eq (c : Config) : analyze b steps c = some (b.analyze c) := by
  have hchanges : sweep (seedsChange b steps c) b.insts = some (b.changeFlags c) :=
    sweep_eq hb fun _ _ ho => seedsChange_eq hb hsteps c ho
  have hwritable : sweep (fun op => some (Body.seedsWritable op)) b.insts = some b.writableFlags :=
    sweep_eq hb fun _ _ _ => rfl
  simp only [analyze, hchanges, hwritable, Option.bind_eq_bind, Option.bind_some]
  refine (foldlM_eq_some (fun facts => List.length facts = b.size) (fun facts hf p hp => ?_)
    (SideTable.length_ofLen _)).1
  exact record_eq hb hsteps c (length_sweep ..) (length_sweep ..) hf (Body.op?_of_mem_entries hp)

end Body

end Memoizer.Strict
