import Memoizer.Proofs.Lowering

namespace Memoizer

def Op.isValue : Op → Bool
  | .constant _ => true
  | .read .. => true
  | .object _ => true
  | .call .. => true
  | _ => false

namespace Body

variable {b : Body} {lo mid hi id : InstId} {ids ids' : List InstId} {op : Op}

def Binds (b : Body) (id : InstId) : Prop := ∃ op, b.op? id = some op ∧ op.boundNames ≠ []

theorem not_binds_call {receiver : InstId} {property : Option Property} {args : List Operand}
    (ho : b.op? id = some (.call receiver property args)) : ¬ b.Binds id := by
  rintro ⟨op, ho', hbound⟩
  obtain rfl := Option.some.inj (ho.symm.trans ho')
  exact hbound rfl

theorem op?_of_isPrefix {b' : Body} (h : b.insts <+: b'.insts) (ho : b.op? id = some op) : b'.op? id = some op := by
  obtain ⟨place, hi⟩ := op?_eq_some_iff.mp ho
  obtain ⟨rest, hrest⟩ := h
  refine op?_eq_some_iff.mpr ⟨place, ?_⟩
  rw [← hrest, List.getElem?_append_left (List.getElem?_eq_some_iff.mp hi).1, hi]

theorem isConsumed_of_mem {j : InstId} (ho : b.op? j = some op) (hk : id ∈ op.operands) : b.isConsumed id = true := by
  obtain ⟨place, hi⟩ := op?_eq_some_iff.mp ho
  exact List.any_eq_true.mpr ⟨_, List.mem_of_getElem? hi, by simpa using hk⟩

theorem exists_of_isConsumed (h : b.isConsumed id = true) : ∃ j op, b.op? j = some op ∧ id ∈ op.operands := by
  obtain ⟨inst, hinst, hk⟩ := List.any_eq_true.mp h
  obtain ⟨j, hj⟩ := List.mem_iff_getElem?.mp hinst
  exact ⟨j, inst.op, op?_eq_some_iff.mpr ⟨inst.place, hj⟩, by simpa using hk⟩

/-- The instructions from `lo` to `hi`, the latter not included, compute the values `ids`. -/
structure Segment (b : Body) (lo hi : InstId) (ids : List InstId) : Prop where
  isValue : ∀ j op, lo ≤ j → j < hi → b.op? j = some op → op.isValue = true
  operands : ∀ j op, lo ≤ j → j < hi → b.op? j = some op → ∀ k ∈ op.operands, lo ≤ k ∨ b.Binds k
  results : ∀ k ∈ ids, lo ≤ k ∨ b.Binds k
  used : ∀ j, lo ≤ j → j < hi → j ∈ ids ∨ b.isConsumed j = true

namespace Segment

theorem of_binds (h : ∀ k ∈ ids, b.Binds k) : b.Segment lo lo ids where
  isValue _ _ hle hlt := absurd hlt (Nat.not_lt.mpr hle)
  operands _ _ hle hlt := absurd hlt (Nat.not_lt.mpr hle)
  results k hk := .inr (h k hk)
  used _ hle hlt := absurd hlt (Nat.not_lt.mpr hle)

theorem append (h : b.Segment lo mid ids) (h' : b.Segment mid hi ids') (hle : lo ≤ mid) :
    b.Segment lo hi (ids ++ ids') where
  isValue j op hlo hhi ho := by
    rcases Nat.lt_or_ge j mid with hj | hj
    · exact h.isValue j op hlo hj ho
    · exact h'.isValue j op hj hhi ho
  operands j op hlo hhi ho k hk := by
    rcases Nat.lt_or_ge j mid with hj | hj
    · exact h.operands j op hlo hj ho k hk
    · exact (h'.operands j op hj hhi ho k hk).imp_left (Nat.le_trans hle)
  results k hk := by
    rcases List.mem_append.mp hk with hk | hk
    · exact h.results k hk
    · exact (h'.results k hk).imp_left (Nat.le_trans hle)
  used j hlo hhi := by
    rcases Nat.lt_or_ge j mid with hj | hj
    · exact (h.used j hlo hj).imp_left (List.mem_append_left _)
    · exact (h'.used j hj hhi).imp_left (List.mem_append_right _)

theorem operands_succ (h : b.Segment lo mid ids) (ho : b.op? mid = some op) (hids : op.operands = ids) {j : InstId}
    {op' : Op} (hlo : lo ≤ j) (hhi : j < mid + 1) (ho' : b.op? j = some op') : ∀ k ∈ op'.operands, lo ≤ k ∨ b.Binds k := by
  rcases Nat.lt_succ_iff_lt_or_eq.mp hhi with hj | rfl
  · exact h.operands j op' hlo hj ho'
  · obtain rfl := Option.some.inj (ho.symm.trans ho')
    rw [hids]
    exact h.results

/-- An instruction behind a segment that takes all its results as operands. -/
theorem emit (h : b.Segment lo mid ids) (hle : lo ≤ mid) (ho : b.op? mid = some op) (hvalue : op.isValue = true)
    (hids : op.operands = ids) : b.Segment lo (mid + 1) [mid] where
  isValue j op' hlo hhi ho' := by
    rcases Nat.lt_succ_iff_lt_or_eq.mp hhi with hj | rfl
    · exact h.isValue j op' hlo hj ho'
    · obtain rfl := Option.some.inj (ho.symm.trans ho')
      exact hvalue
  operands _ _ hlo hhi ho' := h.operands_succ ho hids hlo hhi ho'
  results k hk := by
    rw [List.mem_singleton] at hk
    exact .inl (hk ▸ hle)
  used j hlo hhi := by
    rcases Nat.lt_succ_iff_lt_or_eq.mp hhi with hj | rfl
    · rcases h.used j hlo hj with hk | hk
      · exact .inr (isConsumed_of_mem ho (hids ▸ hk))
      · exact .inr hk
    · exact .inl (List.mem_singleton_self j)

end Segment

end Body

namespace Lower

/-- The run has only appended, and it leaves a body in which, however it goes on, the given relation holds between the
states at the two ends and the result. -/
def Builds {α : Type} (m : Lower α) (post : Body → Lowering → Lowering → α → Prop) : Prop :=
  ∀ s a t, m s = .ok a t → s.body.insts <+: t.body.insts ∧
    ∀ b : Body, b.Backward → t.body.insts <+: b.insts → post b s t a

theorem bind_eq_ok {α β : Type} {m : Lower α} {k : α → Lower β} {s u : Lowering} {c : β} (h : (m >>= k) s = .ok c u) :
    ∃ a t, m s = .ok a t ∧ k a t = .ok c u := by
  cases hm : m s with
  | ok a t => exact ⟨a, t, rfl, (bind_ok hm).symm.trans h⟩
  | error e t =>
      rw [bind_error hm] at h
      cases h

section Builds

variable {α β γ : Type} {p : Body → Lowering → Lowering → α → Prop} {q : Body → Lowering → Lowering → β → Prop}
  {r : Body → Lowering → Lowering → γ → Prop} {m : Lower α}

theorem Builds.pure {a : α} (h : ∀ b s, p b s s a) : Builds (pure a) p := by
  rintro s _ _ ⟨⟩
  exact ⟨List.prefix_rfl, fun b _ _ => h b s⟩

theorem Builds.mono {p' : Body → Lowering → Lowering → α → Prop} (hm : Builds m p)
    (h : ∀ b : Body, b.Backward → ∀ s t a, p b s t a → p' b s t a) : Builds m p' := by
  intro s a t hrun
  obtain ⟨hst, hp⟩ := hm s a t hrun
  exact ⟨hst, fun b hb htb => h b hb s t a (hp b hb htb)⟩

theorem Builds.bind {k : α → Lower γ} {w : α → Body → Lowering → Lowering → γ → Prop} (hm : Builds m p)
    (hk : ∀ a, Builds (k a) (w a))
    (h : ∀ b : Body, b.Backward → ∀ s t u a c, p b s t a → w a b t u c → r b s u c) : Builds (m >>= k) r := by
  intro s c u hrun
  obtain ⟨a, t, hfirst, hrest⟩ := bind_eq_ok hrun
  obtain ⟨hst, hp⟩ := hm s a t hfirst
  obtain ⟨htu, hw⟩ := hk a t c u hrest
  exact ⟨hst.trans htu, fun b hb hub => h b hb s t u a c (hp b hb (htu.trans hub)) (hw b hb hub)⟩

theorem Builds.bind₂ {n : Lower β} {k : α → β → Lower γ} {w : α → β → Body → Lowering → Lowering → γ → Prop}
    (hm : Builds m p) (hn : Builds n q) (hk : ∀ a c, Builds (k a c) (w a c))
    (h : ∀ b : Body, b.Backward → ∀ s t u v a c d, p b s t a → q b t u c → w a c b u v d → r b s v d) :
    Builds (do
      let a ← m
      let c ← n
      k a c) r := by
  refine hm.bind (w := fun a b t v d => ∃ u c, q b t u c ∧ w a c b u v d) (fun a => ?_) ?_
  · exact hn.bind (hk a) fun b _ t u v c d hq hw => ⟨u, c, hq, hw⟩
  · rintro b hb s t v a d hp ⟨u, c, hq, hw⟩
    exact h b hb s t u v a c d hp hq hw

theorem Builds.discard (hm : Builds m p) : Builds (do let _ ← m) fun b s t _ => ∃ a, p b s t a := by
  refine hm.bind (w := fun _ _ s t _ => t = s) (fun _ => .pure fun _ _ => rfl) ?_
  rintro b _ s t _ a _ hp rfl
  exact ⟨a, hp⟩

structure Emitted (b : Body) (s t : Lowering) (op : Op) (id : InstId) : Prop where
  id_eq : id = s.body.size
  size_eq : t.body.size = s.body.size + 1
  place_eq : t.place = s.place
  inst_eq : b.insts[id]? = some ⟨op, s.place⟩

theorem Emitted.op?_eq {b : Body} {s t : Lowering} {op : Op} {id : InstId} (h : Emitted b s t op id) :
    b.op? id = some op := Body.op?_eq_some_iff.mpr ⟨s.place, h.inst_eq⟩

theorem Emitted.placeAt_eq {b : Body} {s t : Lowering} {op : Op} {id : InstId} (h : Emitted b s t op id) :
    b.placeAt id = s.place := Body.placeAt_of_getElem? h.inst_eq

theorem Emitted.size_le {b : Body} {s t : Lowering} {op : Op} {id : InstId} (h : Emitted b s t op id) :
    t.body.size ≤ b.size := by
  rw [h.size_eq, ← h.id_eq]
  exact Body.lt_size_of_op? h.op?_eq

theorem builds_emit (op : Op) : Builds (emit op) fun b s t id => Emitted b s t op id := by
  intro s id t h
  by_cases hall : (op.operands.all (decide <| · < s.body.size)) = true
  · simp only [emit, Builder.emit?, Body.emit?, hall, if_true, Option.map_some] at h
    cases h
    refine ⟨List.prefix_append _ _, fun b _ hb => ⟨rfl, by simp [Body.size], rfl, ?_⟩⟩
    obtain ⟨rest, hrest⟩ := hb
    rw [← hrest, List.append_assoc, List.getElem?_append_right (Nat.le_refl _), Nat.sub_self]
    rfl
  · simp only [emit, Builder.emit?, Body.emit?, if_neg hall, Option.map_none] at h
    cases h

theorem builds_unsupported (kind : String) (expr : Option Expr) (place : Option Place) :
    Builds (unsupported kind expr place) fun b s t id => Emitted b s t (.constant (.unsupported kind expr)) id := by
  intro s id t h
  obtain ⟨hpre, hpost⟩ := builds_emit (.constant (.unsupported kind expr)) _ id t h
  refine ⟨hpre, fun b hb ht => ?_⟩
  obtain ⟨hid, hsize, hplace, hinst⟩ := hpost b hb ht
  exact ⟨hid, hsize, hplace, hinst⟩

theorem builds_unsupportedExpr (kind : String) (e : Expr) :
    Builds (unsupportedExpr kind e) fun b s t id => Emitted b s t (.constant (.unsupported kind (some e))) id :=
  fun s => builds_unsupported kind (some e) s.place s

theorem builds_stamp (place : Option Place) : Builds (stamp place) fun _ s t _ => t.body = s.body ∧ t.place = place := by
  rintro s _ _ ⟨⟩
  exact ⟨List.prefix_rfl, fun _ _ _ => ⟨rfl, rfl⟩⟩

theorem Builds.stamped {α : Type} {m : Lower α} {p : Body → Lowering → Lowering → α → Prop} (h : Builds m p)
    (place : Option Place) : Builds (do stamp place; m) fun b s t a => p b { s with place } t a :=
  fun s => h { s with place }

end Builds

end Lower

end Memoizer
