import Mathlib
import Memoizer.Proofs.Reachability
import Memoizer.Proofs.RoundTrip
import Memoizer.Proofs.Tiling

namespace Memoizer

open Lower

namespace Body

variable {b : Body} {lo mid hi id k : InstId} {ids ids' : List InstId} {op : Op}

def operandsAt (b : Body) (id : InstId) : List InstId :=
  match b.op? id with
  | some op => op.operands
  | none => []

theorem operandsAt_eq (ho : b.op? id = some op) : b.operandsAt id = op.operands := by rw [operandsAt, ho]

theorem mem_operandsAt_iff : k ∈ b.operandsAt id ↔ b.Reads id k := by
  rw [operandsAt, Reads]
  cases b.op? id with
  | none => simp
  | some op => simp

def isValueAt (b : Body) (id : InstId) : Bool := (b.op? id).any Op.isValue

def slots (b : Body) (lo hi : InstId) : List InstId := (List.range' lo (hi - lo)).flatMap b.operandsAt

theorem slots_self (b : Body) (lo : InstId) : b.slots lo lo = [] := by rw [slots, Nat.sub_self]; rfl

theorem slots_append (hlo : lo ≤ mid) (hhi : mid ≤ hi) : b.slots lo hi = b.slots lo mid ++ b.slots mid hi := by
  rw [slots, slots, slots, ← range'_append_range' hlo hhi, List.flatMap_append]

theorem slots_succ (ho : b.op? mid = some op) : b.slots mid (mid + 1) = op.operands := by
  rw [slots, Nat.add_sub_cancel_left, List.range'_one, List.flatMap_singleton, operandsAt_eq ho]

theorem slots_eq_flatMap (b : Body) : b.slots 0 b.size = b.insts.flatMap (·.op.operands) := by
  rw [slots, Nat.sub_zero, ← List.range_eq_range', List.flatMap_def, List.flatMap_def]
  congr 1
  apply List.ext_getElem?
  intro i
  rw [List.getElem?_map, List.getElem?_map]
  by_cases hi : i < b.size
  · obtain ⟨op, ho⟩ := exists_op? hi
    obtain ⟨place, hinst⟩ := op?_eq_some_iff.mp ho
    rw [List.getElem?_range hi, hinst, Option.map_some, Option.map_some, operandsAt_eq ho]
  · rw [List.getElem?_eq_none (by simpa using hi), List.getElem?_eq_none (Nat.le_of_not_lt hi)]
    rfl

/-- How often an instruction without a name may be used if only `lo` to `hi` is its own. -/
def allowance (b : Body) (lo hi k : InstId) : Nat := if lo ≤ k ∧ k < hi ∧ b.isValueAt k = true then 1 else 0

theorem allowance_append (hlo : lo ≤ mid) (hhi : mid ≤ hi) (k : InstId) :
    b.allowance lo hi k = b.allowance lo mid k + b.allowance mid hi k := by
  unfold allowance
  cases b.isValueAt k with
  | false => simp
  | true => grind

/-- From `lo` to `hi` nothing is used that was there before and has no name, and nothing twice. The results `ids` count
as uses. -/
structure Linear (b : Body) (lo hi : InstId) (ids : List InstId) : Prop where
  le : lo ≤ hi
  count_le : ∀ k, ¬ b.Binds k → (b.slots lo hi ++ ids).count k ≤ b.allowance lo hi k

namespace Linear

theorem of_binds (h : ∀ k ∈ ids, b.Binds k) : b.Linear lo lo ids where
  le := Nat.le_refl lo
  count_le k hk := by
    have hnot : k ∉ ids := fun hmem => hk (h k hmem)
    rw [slots_self, List.nil_append, List.count_eq_zero_of_not_mem hnot]
    exact Nat.zero_le _

theorem append (h : b.Linear lo mid ids) (h' : b.Linear mid hi ids') : b.Linear lo hi (ids ++ ids') where
  le := Nat.le_trans h.le h'.le
  count_le k hk := by
    have hfirst := h.count_le k hk
    have hsecond := h'.count_le k hk
    rw [slots_append h.le h'.le, allowance_append h.le h'.le]
    simp only [List.count_append] at hfirst hsecond ⊢
    omega

theorem weaken (h : b.Linear lo hi ids) (hsub : List.Sublist ids' ids) : b.Linear lo hi ids' where
  le := h.le
  count_le k hk := by
    have hcount := h.count_le k hk
    have hle := hsub.count_le k
    rw [List.count_append] at hcount ⊢
    omega

theorem close (h : b.Linear lo mid ids) (ho : b.op? mid = some op) (hsub : List.Sublist op.operands ids) :
    b.Linear lo (mid + 1) [] where
  le := Nat.le_succ_of_le h.le
  count_le k hk := by
    have hcount := (h.weaken hsub).count_le k hk
    rw [slots_append h.le (Nat.le_succ mid), slots_succ ho, List.append_nil,
      allowance_append h.le (Nat.le_succ mid)]
    omega

theorem emit (h : b.Linear lo mid ids) (ho : b.op? mid = some op) (hvalue : op.isValue = true)
    (hsub : List.Sublist op.operands ids) : b.Linear lo (mid + 1) [mid] where
  le := Nat.le_succ_of_le h.le
  count_le k hk := by
    have hcount := (h.weaken hsub).count_le k hk
    have hown : [mid].count k ≤ b.allowance mid (mid + 1) k := by
      rw [List.count_singleton]
      split
      next heq =>
        obtain rfl : mid = k := by simpa using heq
        have hat : b.isValueAt mid = true := by rw [isValueAt, ho]; exact hvalue
        simp [allowance, hat]
      next => exact Nat.zero_le _
    rw [slots_append h.le (Nat.le_succ mid), slots_succ ho, List.count_append,
      allowance_append h.le (Nat.le_add_right mid 1)]
    omega

variable {s t : Lowering}

theorem emitted (h : b.Linear lo s.body.size ids) (he : Emitted b s t op id) (hvalue : op.isValue = true)
    (hsub : List.Sublist op.operands ids) : b.Linear lo t.body.size [id] := by
  have ho := he.op?_eq
  rw [he.size_eq, he.id_eq]
  rw [he.id_eq] at ho
  exact h.emit ho hvalue hsub

theorem closed (h : b.Linear lo s.body.size ids) (he : Emitted b s t op id) (hsub : List.Sublist op.operands ids) :
    b.Linear lo t.body.size [] := by
  have ho := he.op?_eq
  rw [he.id_eq] at ho
  rw [he.size_eq]
  exact h.close ho hsub

theorem of_constant {c : Constant} (he : Emitted b s t (.constant c) id) : b.Linear s.body.size t.body.size [id] :=
  (of_binds (List.forall_mem_nil _)).emitted he rfl List.Sublist.slnil

end Linear

end Body

namespace Lower

theorem linear_lowerIdent (name : String) :
    Builds (lowerIdent name) fun b s t id => b.Linear s.body.size t.body.size [id] := by
  intro s id t h
  have hget : (get : Lower Lowering) s = .ok s s := rfl
  rw [lowerIdent, bind_ok hget] at h
  cases hr : s.body.resolve name with
  | none =>
      rw [hr] at h
      exact (builds_emit _).mono (fun b _ s t id he => Body.Linear.of_constant he) s id t h
  | some k =>
      rw [hr] at h
      cases h
      refine ⟨List.prefix_rfl, fun b _ hpre => .of_binds ?_⟩
      obtain ⟨op, ho, hname⟩ := Body.resolve_binds hr
      rw [List.forall_mem_singleton]
      exact ⟨op, Body.op?_of_isPrefix hpre ho, List.ne_nil_of_mem hname⟩

end Lower

theorem Expr.linear_lower (e : Expr) : Builds e.lower fun b s t id => b.Linear s.body.size t.body.size [id] := by
  refine Expr.lower_induction (P := fun _ m => Builds m fun b s t id => b.Linear s.body.size t.body.size [id])
    (Q := fun _ m => Builds m fun b s t operands => b.Linear s.body.size t.body.size (Operand.ids operands))
    (R := fun _ m => Builds m fun b s t props => b.Linear s.body.size t.body.size (Property.ids props))
    ?literal ?ident ?function ?kept ?read ?method ?call ?object ?nil ?lit ?cons ?pnil ?plit ?pcons ?pskip e
  case literal => exact fun value => (builds_emit _).mono fun b _ s t id he => .of_constant he
  case ident => exact linear_lowerIdent
  case function => exact fun e _ _ _ => (builds_emit _).mono fun b _ s t id he => .of_constant he
  case kept => exact fun kind e _ _ _ => (builds_unsupportedExpr kind e).mono fun b _ s t id he => .of_constant he
  case read =>
    intro object property p _ ho
    refine ho.bind (fun id => builds_emit (.read id p)) ?_
    intro b _ s t u id id' hobject he
    exact hobject.emitted he rfl (List.Sublist.refl _)
  case method =>
    intro object property args p _ ho ha
    refine ho.bind₂ ha (fun receiver operands => builds_emit (.call receiver (some p) operands)) ?_
    intro b _ s t u v receiver operands id hobject hargs he
    exact (hobject.append hargs).emitted he rfl (List.Sublist.refl _)
  case call =>
    intro callee args _ hc ha
    refine hc.bind₂ ha (fun receiver operands => builds_emit (.call receiver none operands)) ?_
    intro b _ s t u v receiver operands id hcallee hargs he
    exact (hcallee.append hargs).emitted he rfl (List.Sublist.refl _)
  case object =>
    intro members _ hm
    refine hm.bind (fun props => builds_emit (.object props)) ?_
    intro b _ s t u props id hprops he
    exact hprops.emitted he rfl (List.Sublist.refl _)
  case nil => exact .pure fun b s => .of_binds (List.forall_mem_nil _)
  case lit =>
    intro value exprs hes
    refine hes.bind (w := fun operands _ s t c => t = s ∧ c = .literal value :: operands)
      (fun operands => .pure fun _ _ => ⟨rfl, rfl⟩) ?_
    rintro b _ s t _ operands _ hrest ⟨rfl, rfl⟩
    exact hrest
  case cons =>
    intro e exprs _ he hes
    refine he.bind₂ hes (w := fun id operands _ s t c => t = s ∧ c = .value id :: operands)
      (fun id operands => .pure fun _ _ => ⟨rfl, rfl⟩) ?_
    rintro b _ s t u _ id operands _ hhead hrest ⟨rfl, rfl⟩
    exact hhead.append hrest
  case pnil => exact .pure fun b s => .of_binds (List.forall_mem_nil _)
  case plit =>
    intro key value shorthand members hm
    refine hm.bind (w := fun props _ s t c => t = s ∧ c = (key, .literal value) :: props)
      (fun props => .pure fun _ _ => ⟨rfl, rfl⟩) ?_
    rintro b _ s t _ props _ hrest ⟨rfl, rfl⟩
    exact hrest
  case pcons =>
    intro key value shorthand members _ he hm
    refine he.bind₂ hm (w := fun id props _ s t c => t = s ∧ c = (key, .value id) :: props)
      (fun id props => .pure fun _ _ => ⟨rfl, rfl⟩) ?_
    rintro b _ s t u _ id props _ hhead hrest ⟨rfl, rfl⟩
    exact hhead.append hrest
  case pskip => exact fun m members _ hm => hm

namespace Lower

theorem linear_single {m : Lower InstId} {op : Op} (hop : op.operands = [])
    (hm : Builds m fun b s t id => Emitted b s t op id) :
    Builds (do let _ ← m) fun b s t _ => b.Linear s.body.size t.body.size [] := by
  refine hm.discard.mono ?_
  rintro b _ s t _ ⟨id, he⟩
  apply (Body.Linear.of_binds (List.forall_mem_nil _)).closed he
  rw [hop]

theorem linear_value (e : Expr) {last : InstId → Lower InstId} {op : InstId → Op}
    (hop : ∀ value, List.Sublist (op value).operands [value])
    (hlast : ∀ value, Builds (last value) fun b s t id => Emitted b s t (op value) id) :
    Builds (do
      let value ← e.lower
      let _ ← last value) fun b s t _ => b.Linear s.body.size t.body.size [] := by
  refine e.linear_lower.bind (fun value => (hlast value).discard) ?_
  rintro b _ s t u value _ hvalue ⟨id, he⟩
  exact hvalue.closed he (hop value)

end Lower

theorem Declarator.linear_lower (kind : DeclKind) (place : Option Place) (d : Declarator) :
    Builds (d.lower kind place) fun b s t _ => b.Linear s.body.size t.body.size [] := by
  obtain ⟨target, init⟩ := d
  cases init with
  | none =>
      intro s _ t hrun
      cases hrun
  | some init =>
      cases target with
      | ident | array => exact linear_value init (fun _ => List.Sublist.refl _) fun value => builds_emit _
      | object | assign | rest =>
          refine linear_value init (fun _ => ?_) fun _ => builds_unsupported _ _ _
          exact List.nil_sublist _

theorem Declarator.linear_lowerAll (kind : DeclKind) (place : Option Place) (ds : List Declarator) :
    Builds (lowerAll kind place ds) fun b s t _ => b.Linear s.body.size t.body.size [] := by
  induction ds with
  | nil => exact .pure fun b s => .of_binds (List.forall_mem_nil _)
  | cons d ds ih => exact (d.linear_lower kind place).bind (fun _ => ih) fun b _ s t u _ _ hd hds => hd.append hds

theorem Stmt.linear_lower (stmt : Stmt) :
    Builds stmt.lower fun b s t _ => b.Linear s.body.size t.body.size [] := by
  cases stmt with
  | decl kind declarators place => exact (Declarator.linear_lowerAll kind place declarators).stamped place
  | ret value place =>
      cases value with
      | none => exact (linear_single rfl (builds_emit (.ret none))).stamped place
      | some value =>
          exact (linear_value value (fun _ => List.Sublist.refl _) fun id => builds_emit (.ret (some id))).stamped place
  | expr value place =>
      have hvalue : Builds (do let _ ← value.lower) fun b s t _ => b.Linear s.body.size t.body.size [] := by
        refine value.linear_lower.discard.mono ?_
        rintro b _ s t _ ⟨id, hlinear⟩
        exact hlinear.weaken (List.nil_sublist _)
      exact hvalue.stamped place
  | verbatim kind text place => exact (linear_single rfl (builds_unsupported kind none place)).stamped place

theorem Stmt.linear_lowerAll (stmts : List Stmt) :
    Builds (lowerAll stmts) fun b s t _ => b.Linear s.body.size t.body.size [] := by
  induction stmts with
  | nil => exact .pure fun b s => .of_binds (List.forall_mem_nil _)
  | cons stmt stmts ih => exact stmt.linear_lower.bind (fun _ => ih) fun b _ s t u _ _ hs hrest => hs.append hrest

namespace Body

variable {b : Body} {lo hi id j j' k : InstId}

theorem mem_slots_iff : k ∈ b.slots lo hi ↔ ∃ j, lo ≤ j ∧ j < hi ∧ b.Reads j k := by
  have hrange (lo hi j : Nat) : j ∈ List.range' lo (hi - lo) ↔ lo ≤ j ∧ j < hi := by
    rw [List.mem_range'_1]
    omega
  rw [slots, List.mem_flatMap]
  constructor
  · rintro ⟨j, hj, hk⟩
    obtain ⟨hlo, hhi⟩ := (hrange lo hi j).mp hj
    exact ⟨j, hlo, hhi, mem_operandsAt_iff.mp hk⟩
  · rintro ⟨j, hlo, hhi, hreads⟩
    exact ⟨j, (hrange lo hi j).mpr ⟨hlo, hhi⟩, mem_operandsAt_iff.mpr hreads⟩

theorem Reads.lt_size (h : b.Reads j k) : j < b.size := by
  obtain ⟨op, ho, _⟩ := h
  exact lt_size_of_op? ho

theorem isConsumed_iff : b.isConsumed k = true ↔ ∃ j, b.Reads j k := by
  constructor
  · intro h
    obtain ⟨j, op, ho, hk⟩ := exists_of_isConsumed h
    exact ⟨j, op, ho, hk⟩
  · rintro ⟨j, op, ho, hk⟩
    exact isConsumed_of_mem ho hk

namespace Linear

variable (h : b.Linear 0 b.size [])

include h

theorem count_slots_le (hk : ¬ b.Binds k) : (b.slots 0 b.size).count k ≤ 1 := by
  have hcount := h.count_le k hk
  rw [List.append_nil, allowance] at hcount
  split at hcount <;> omega

theorem isValueAt_of_reads (hk : ¬ b.Binds k) (hreads : b.Reads j k) : b.isValueAt k = true := by
  have hmem : k ∈ b.slots 0 b.size := mem_slots_iff.mpr ⟨j, Nat.zero_le j, hreads.lt_size, hreads⟩
  have hpos : 0 < (b.slots 0 b.size).count k := List.count_pos_iff.mpr hmem
  have hcount := h.count_le k hk
  rw [List.append_nil, allowance] at hcount
  split at hcount
  next hown => exact hown.2.2
  next => omega

theorem not_lt_of_reads (hk : ¬ b.Binds k) (hj : b.Reads j k) (hj' : b.Reads j' k) : ¬ j < j' := by
  intro hlt
  have hfirst : 0 < (b.slots 0 (j + 1)).count k :=
    List.count_pos_iff.mpr (mem_slots_iff.mpr ⟨j, Nat.zero_le j, Nat.lt_succ_self j, hj⟩)
  have hsecond : 0 < (b.slots (j + 1) b.size).count k :=
    List.count_pos_iff.mpr (mem_slots_iff.mpr ⟨j', hlt, hj'.lt_size, hj'⟩)
  have hcount := h.count_slots_le hk
  rw [slots_append (Nat.zero_le (j + 1)) hj.lt_size, List.count_append] at hcount
  omega

theorem reads_unique (hk : ¬ b.Binds k) (hj : b.Reads j k) (hj' : b.Reads j' k) : j = j' := by
  apply Nat.le_antisymm
  · exact Nat.not_lt.mp (h.not_lt_of_reads hk hj' hj)
  · exact Nat.not_lt.mp (h.not_lt_of_reads hk hj hj')

theorem count_operandsAt_le (hk : ¬ b.Binds k) (j : InstId) : (b.operandsAt j).count k ≤ 1 := by
  by_cases hj : j < b.size
  · obtain ⟨op, ho⟩ := exists_op? hj
    have hcount := h.count_slots_le hk
    rw [slots_append (Nat.zero_le j) (Nat.le_of_lt hj), slots_append (Nat.le_succ j) hj, Nat.succ_eq_add_one,
      slots_succ ho, List.count_append, List.count_append] at hcount
    rw [operandsAt_eq ho]
    omega
  · rw [operandsAt, op?_eq_none_iff.mpr (Nat.not_lt.mp hj)]
    exact Nat.zero_le _

end Linear

end Body

namespace Function

variable {f : Function} {log log' : Log} {body : Body}

theorem emitted_linear (h : f.lower log = .ok body log') : body.Linear 0 body.size [] := by
  obtain ⟨rfl, t, u, hparams, hrun, hu⟩ := lower_stages h
  obtain ⟨hpre, hpost⟩ := Stmt.linear_lowerAll f.body t () u hrun
  have hstmts := hpost _ (f.emitted_backward log) (hu ▸ List.prefix_rfl)
  rw [hu] at hpre hstmts
  -- Parameters have no operands.
  have hfront : (f.emitted log).slots 0 t.body.size = [] := by
    rw [Body.slots, List.flatMap_eq_nil_iff]
    intro j hj
    have hlt : j < t.body.size := by simpa using hj
    obtain ⟨op, ho⟩ := Body.exists_op? hlt
    obtain ⟨name, rfl⟩ := exists_param_of_op? hparams ho
    rw [Body.operandsAt_eq (Body.op?_of_isPrefix hpre ho)]
    rfl
  have hparamsLinear : (f.emitted log).Linear 0 t.body.size [] := ⟨Nat.zero_le _, fun k _ => by simp [hfront]⟩
  exact hparamsLinear.append hstmts

end Function

end Memoizer
